import KaracaOS.MemoryManager

namespace KaracaOS.BootMap
open ByteMemory Bitmap MemoryManager

-- multiboot_memory_map_t and the fields of multiboot_info_t that mm_init reads.
-- `memory` reads the packed entry that starts at a physical address.
structure MmapEntry where
  size : Nat
  addr : Nat
  len : Nat
  type : Nat
  deriving DecidableEq, Repr

structure MultibootInfo where
  flags : Nat
  mmapLength : Nat
  mmapAddr : Nat
  memory : Nat → MmapEntry

def memoryAvailable : Nat := 1
def memoryAcpiReclaimable : Nat := 3
def memoryNvs : Nat := 4
def memoryBadram : Nat := 5

-- for (; k <= bound; k += 8) bitmap[k / 8] = value, with the k it stops at.
def byteRun (value : Byte) (bound k : Nat) (bitmap : Bytes) : Nat × Bytes :=
  if k ≤ bound then byteRun value bound (k+8) (store bitmap (k/8) value) else (k,bitmap)
termination_by bound+1-k

-- Both branches write the first byte, a run of bytes, and the last byte once more.
-- none: k wraps around at the top of a uint32_t and the run never ends.
def markEntry (bitmap : Bytes) (startBlock bound : Nat) (first middle last : Byte) : Option Bytes :=
  if word-8 ≤ bound then none else
  let (k,bitmap) := byteRun middle bound ((startBlock+8)%word/8*8) (store bitmap (startBlock/8) first)
  some (store bitmap ((k+word-8)%word/8) last)

def markAvailable (bitmap : Bytes) (entry : MmapEntry) : Option Bytes :=
  let startBlock := entry.addr/4096 % word
  let blockCount := entry.len/4096 % word
  let bound := (startBlock+blockCount)%word
  markEntry bitmap startBlock bound (~~~(0xFF#8 <<< (startBlock%8))) 0#8 (0xFF#8 >>> (8-bound%8))

def markReserved (bitmap : Bytes) (entry : MmapEntry) : Option Bytes :=
  let startBlock := entry.addr/4096 % word
  let endBlock := (entry.addr+entry.len)%(word*word)/4096 % word
  if 0 < entry.len then
    markEntry bitmap startBlock endBlock (0xFF#8 >>> (startBlock%8)) 1#8 (0xFF#8 >>> (endBlock%8))
  else some bitmap

def mapEntry (bitmap : Bytes) (entry : MmapEntry) : Option Bytes :=
  if entry.type = memoryAvailable then markAvailable bitmap entry
  else if entry.type = memoryAcpiReclaimable then some bitmap
  else if entry.type = memoryNvs then some bitmap
  else if entry.type = memoryBadram then some bitmap
  else markReserved bitmap entry

-- The entry pointer moves by the entry's own size; the counter of the loop by
-- sizeof(multiboot_memory_map_t), so the number of rounds is known beforehand.
def mapLoop (memory : Nat → MmapEntry) : Nat → Nat → Bytes → Option Bytes
  | 0,_,bitmap => some bitmap
  | rounds+1,entry,bitmap =>
    (mapEntry bitmap (memory entry)).bind (mapLoop memory rounds ((entry+(memory entry).size+4)%word))

def clearBits (byte : Byte) : Nat :=
  if byte = 0#8 then 8 else if byte = 0xFF#8 then 0
  else (List.range 8).foldl (fun count j => if byte.getLsbD j then count else count+1) 0

def availableBlocks (bitmap : Bytes) : Nat :=
  (List.range bitmapBytes).foldl (fun count i => count+clearBits (bitmap i)) 0

-- The loops behind the memory map: the first 16384 frames and the kernel's
-- virtual pages are taken, and the free frames counted.
def reserveKernel (s : Mm) (detected : Bytes) : Mm :=
  let bitmap := fill detected 0 (4*4096/8) 0xFF#8
  {s with
    pageAllocBitmap := bitmap
    vmAllocBitmap := fill s.vmAllocBitmap 98304 102400 0xFF#8
    availableBlockCount := availableBlocks bitmap}

-- none: i += 24 wraps around below a mmap_length this long.
def mmInit (s : Mm) (info : MultibootInfo) : Option (SysRet × Mm) :=
  if (info.flags >>> 6) % 2 = 0 then some (.initError,s) else
  if word-16 < info.mmapLength then none else
  let reserved := fill s.pageAllocBitmap 0 bitmapBytes 0xFF#8
  match mapLoop info.memory ((info.mmapLength+23)/24) info.mmapAddr reserved with
  | none => none
  | some detected => some (.noError,reserveKernel s detected)

def MmapEntry.first (e : MmapEntry) : Nat := e.addr/4096
def MmapEntry.stop (e : MmapEntry) : Nat := (e.addr+e.len)/4096
def MmapEntry.Covers (e : MmapEntry) (f : Nat) : Prop := e.first ≤ f ∧ f < e.stop
def MmapEntry.Available (e : MmapEntry) : Prop := e.type = memoryAvailable
-- The last branch of the loop: every type without a branch of its own.
def MmapEntry.Reserved (e : MmapEntry) : Prop :=
  e.type ≠ memoryAvailable ∧ e.type ≠ memoryAcpiReclaimable ∧ e.type ≠ memoryNvs ∧ e.type ≠ memoryBadram

instance (e : MmapEntry) : Decidable e.Available := inferInstanceAs (Decidable (_ = _))
instance (e : MmapEntry) : Decidable e.Reserved := inferInstanceAs (Decidable (_ ∧ _))
instance (e : MmapEntry) (f : Nat) : Decidable (e.Covers f) := inferInstanceAs (Decidable (_ ∧ _))

def MmapEntry.Writes (e : MmapEntry) (group : Nat) : Prop :=
  (e.Available ∨ e.Reserved ∧ 0 < e.len) ∧ e.first/8 ≤ group ∧ group ≤ e.stop/8
instance (e : MmapEntry) (group : Nat) : Decidable (e.Writes group) := inferInstanceAs (Decidable (_ ∧ _))

def MmapEntry.value (e : MmapEntry) (group : Nat) : Byte :=
  if e.Available then
    if group = e.stop/8 then 0xFF#8 >>> (8-e.stop%8)
    else if group = e.first/8 then ~~~(0xFF#8 <<< (e.first%8)) else 0#8
  else
    if group = e.stop/8 then 0xFF#8 >>> (e.stop%8)
    else if group = e.first/8 then 0xFF#8 >>> (e.first%8) else 1#8

def lastWriter (entries : List MmapEntry) (group : Nat) : Option MmapEntry :=
  entries.reverse.find? (fun e => decide (e.Writes group))

-- A memory map below 4 GiB as the boot loader hands it over.
structure MmapEntry.Sound (e : MmapEntry) : Prop where
  size : e.size = 20
  aligned : e.addr % 4096 = 0 ∧ e.len % 4096 = 0
  below : e.addr+e.len ≤ word

structure MemoryMap (info : MultibootInfo) (entries : List MmapEntry) : Prop where
  provided : (info.flags >>> 6) % 2 = 1
  length : info.mmapLength = 24*entries.length
  bounded : info.mmapLength < word
  placed : ∀ i entry, entries[i]? = some entry → info.memory ((info.mmapAddr+24*i)%word) = entry
  sound : ∀ e ∈ entries, e.Sound
  located : info.mmapAddr < word
  disjoint : entries.Pairwise (fun e e' => ∀ f, ¬ (e.Covers f ∧ e'.Covers f))

variable {e : MmapEntry} {startBlock bound : Nat}

theorem byteRun_eq (value : Byte) (bound m : Nat) (bitmap : Bytes) :
    byteRun value bound (8*m) bitmap = (8*max m (bound/8+1),fill bitmap m (bound/8+1) value) := by
  induction gap : bound/8+1-m generalizing m bitmap with
  | zero =>
    rw [byteRun,if_neg (by omega),Nat.max_eq_left (by omega)]
    congr 1
    funext i
    rw [fill_outside]
    omega
  | succ gap ih =>
    rw [byteRun,if_pos (by omega),show 8*m+8 = 8*(m+1) by omega,ih (m+1) _ (by omega),
      show 8*m/8 = m by omega,Nat.max_eq_right (by omega),Nat.max_eq_right (by omega)]
    congr 1
    funext i
    by_cases here : i = m
    · rw [here,fill_outside (by omega),store_same,fill_inside (by omega) (by omega)]
    · simp only [fill,store,here,if_false]
      have same : (m+1 ≤ i ∧ i < bound/8+1) ↔ (m ≤ i ∧ i < bound/8+1) := by omega
      simp only [same]

def marked (bitmap : Bytes) (startBlock bound : Nat) (first middle last : Byte) : Bytes :=
  store (fill (store bitmap (startBlock/8) first) (startBlock/8+1) (bound/8+1) middle) (bound/8) last

theorem marked_byte (ordered : startBlock ≤ bound) (bitmap : Bytes) (first middle last : Byte) (i : Nat) :
    marked bitmap startBlock bound first middle last i =
      if startBlock/8 ≤ i ∧ i ≤ bound/8 then
        (if i = bound/8 then last else if i = startBlock/8 then first else middle) else bitmap i := by
  have order : startBlock/8 ≤ bound/8 := Nat.div_le_div_right ordered
  simp only [marked,store,fill]
  split_ifs <;> first | rfl | omega

theorem markEntry_eq (ordered : startBlock ≤ bound) (low : bound < word-8) (bitmap : Bytes) (first middle last : Byte) :
    markEntry bitmap startBlock bound first middle last = some (marked bitmap startBlock bound first middle last) := by
  unfold word at low
  have step : (startBlock+8)%word/8*8 = 8*(startBlock/8+1) := by unfold word; omega
  have final : (8*max (startBlock/8+1) (bound/8+1)+word-8)%word/8 = bound/8 := by
    rw [Nat.max_eq_right (by omega)]
    unfold word
    omega
  simp only [markEntry]
  rw [if_neg (show ¬ word-8 ≤ bound by unfold word; omega),step,byteRun_eq]
  dsimp only
  rw [final]
  rfl

theorem MmapEntry.Reserved.notAvailable (reserved : e.Reserved) : ¬ e.Available := reserved.1

theorem MmapEntry.ordered (e : MmapEntry) : e.first ≤ e.stop := Nat.div_le_div_right (Nat.le_add_right _ _)

theorem MmapEntry.Sound.bounds (sound : e.Sound) : e.addr/4096 % word = e.first ∧ e.stop < word-8 := by
  have below : e.addr+e.len ≤ 4294967296 := sound.below
  exact ⟨Nat.mod_eq_of_lt (by unfold word; omega),by unfold word MmapEntry.stop; omega⟩

theorem markAvailable_eq (sound : e.Sound) (bitmap : Bytes) : markAvailable bitmap e =
    some (marked bitmap e.first e.stop (~~~(0xFF#8 <<< (e.first%8))) 0#8 (0xFF#8 >>> (8-e.stop%8))) := by
  obtain ⟨start,low⟩ := sound.bounds
  have below : e.addr+e.len ≤ 4294967296 := sound.below
  have aligned := sound.aligned
  have sum : (e.first+e.len/4096 % word)%word = e.stop := by
    unfold MmapEntry.first MmapEntry.stop word
    omega
  simp only [markAvailable]
  rw [start,sum,markEntry_eq e.ordered low]

theorem markReserved_eq (sound : e.Sound) (some_ : 0 < e.len) (bitmap : Bytes) : markReserved bitmap e =
    some (marked bitmap e.first e.stop (0xFF#8 >>> (e.first%8)) 1#8 (0xFF#8 >>> (e.stop%8))) := by
  obtain ⟨start,low⟩ := sound.bounds
  have below : e.addr+e.len ≤ 4294967296 := sound.below
  have wide : (e.addr+e.len)%(word*word)/4096 % word = e.stop := by
    unfold MmapEntry.stop word
    omega
  simp only [markReserved]
  rw [if_pos some_,start,wide,markEntry_eq e.ordered low]

theorem mapEntry_reserved (reserved : e.Reserved) (bitmap : Bytes) : mapEntry bitmap e = markReserved bitmap e := by
  obtain ⟨one,two,three,four⟩ := reserved
  unfold mapEntry
  rw [if_neg one,if_neg two,if_neg three,if_neg four]

theorem mapEntry_ignored (notAvailable : ¬ e.Available) (notReserved : ¬ e.Reserved) (bitmap : Bytes) :
    mapEntry bitmap e = some bitmap := by
  have other : e.type ≠ memoryAvailable := notAvailable
  unfold mapEntry
  rw [if_neg other]
  split_ifs with acpi nvs bad
  · rfl
  · rfl
  · rfl
  · exact absurd ⟨other,acpi,nvs,bad⟩ notReserved

theorem mapEntry_byte (sound : e.Sound) (bitmap : Bytes) :
    ∃ after, mapEntry bitmap e = some after ∧ ∀ i, after i = if e.Writes i then e.value i else bitmap i := by
  by_cases available : e.Available
  · have ran : mapEntry bitmap e = markAvailable bitmap e := if_pos available
    refine ⟨_,ran.trans (markAvailable_eq sound bitmap),?_⟩
    intro i
    rw [marked_byte e.ordered]
    simp [MmapEntry.Writes,MmapEntry.value,available]
  · by_cases reserved : e.Reserved
    · by_cases empty : 0 < e.len
      · refine ⟨_,(mapEntry_reserved reserved bitmap).trans (markReserved_eq sound empty bitmap),?_⟩
        intro i
        rw [marked_byte e.ordered]
        simp [MmapEntry.Writes,MmapEntry.value,available,reserved,empty]
      · refine ⟨bitmap,?_,?_⟩
        · rw [mapEntry_reserved reserved]
          simp [markReserved,empty]
        · intro i
          simp [MmapEntry.Writes,available,empty]
    · refine ⟨bitmap,mapEntry_ignored available reserved bitmap,?_⟩
      intro i
      simp [MmapEntry.Writes,available,reserved]

theorem lastWriter_cons (e : MmapEntry) (rest : List MmapEntry) (i : Nat) :
    lastWriter (e::rest) i = (lastWriter rest i).or (if e.Writes i then some e else none) := by
  unfold lastWriter
  rw [List.reverse_cons,List.find?_append]
  by_cases writes : e.Writes i <;> simp [writes]

theorem lastWriter_mem (last : lastWriter entries i = some e) : e ∈ entries ∧ e.Writes i := by
  refine ⟨List.mem_reverse.mp (List.mem_of_find?_eq_some last),?_⟩
  simpa using List.find?_some last

def settled (entries : List MmapEntry) (bitmap : Bytes) (i : Nat) : Byte :=
  ((lastWriter entries i).map (fun e => e.value i)).getD (bitmap i)

theorem mapLoop_bytes (memory : Nat → MmapEntry) (sound : ∀ e ∈ entries, e.Sound) (located : addr < word)
    (placed : ∀ i entry, entries[i]? = some entry → memory ((addr+24*i)%word) = entry) (bitmap : Bytes) :
    ∃ after, mapLoop memory entries.length addr bitmap = some after ∧ ∀ i, after i = settled entries bitmap i := by
  induction entries generalizing addr bitmap with
  | nil => exact ⟨bitmap,rfl,fun i => rfl⟩
  | cons e rest ih =>
    have here : memory addr = e := by
      have at0 := placed 0 e rfl
      rwa [Nat.mul_zero,Nat.add_zero,Nat.mod_eq_of_lt located] at at0
    have size := (sound e (by simp)).size
    obtain ⟨middle,first,bytes⟩ := mapEntry_byte (sound e (by simp)) bitmap
    have later : ∀ i entry, rest[i]? = some entry → memory (((addr+e.size+4)%word+24*i)%word) = entry := by
      intro i entry found
      have moved := placed (i+1) entry (by simpa using found)
      rw [size,Nat.mod_add_mod]
      rwa [show addr+24*(i+1) = addr+20+4+24*i by omega] at moved
    obtain ⟨after,ran,final⟩ := ih (fun e member => sound e (by simp [member])) (Nat.mod_lt _ (by decide)) later middle
    refine ⟨after,?_,?_⟩
    · simp only [List.length_cons,mapLoop,here,first,Option.bind_some]
      exact ran
    · intro i
      rw [final i]
      unfold settled
      rw [lastWriter_cons]
      cases lastWriter rest i with
      | some other => simp
      | none =>
        by_cases writes : e.Writes i <;> simp [bytes i,writes]

theorem mmInit_bytes (map : MemoryMap info entries) (s : Mm) :
    ∃ next, mmInit s info = some (.noError,next) ∧ next.tables = s.tables ∧
      next.vmAllocBitmap = fill s.vmAllocBitmap 98304 102400 0xFF#8 ∧
      next.availableBlockCount = availableBlocks next.pageAllocBitmap ∧
      (∀ i < 2048, next.pageAllocBitmap i = 0xFF#8) ∧
      ∀ i, 2048 ≤ i → i < bitmapBytes → next.pageAllocBitmap i = settled entries (fun _ => 0xFF#8) i := by
  have bounded : 24*entries.length < 4294967296 := by
    rw [← map.length]
    exact map.bounded
  have rounds : (info.mmapLength+23)/24 = entries.length := by rw [map.length]; omega
  obtain ⟨detected,ran,bytes⟩ :=
    mapLoop_bytes info.memory map.sound map.located map.placed (fill s.pageAllocBitmap 0 bitmapBytes 0xFF#8)
  refine ⟨reserveKernel s detected,?_,rfl,rfl,by simp only [reserveKernel],?_,?_⟩
  · unfold mmInit
    rw [if_neg (by rw [map.provided]; decide),if_neg (by rw [map.length]; unfold word; omega),rounds]
    dsimp only
    rw [ran]
  · intro i low
    exact fill_inside (Nat.zero_le _) (by omega)
  · intro i low high
    dsimp only [reserveKernel]
    rw [fill_outside (.inr (by omega)),bytes i]
    unfold settled
    rw [fill_inside (Nat.zero_le _) high]

theorem shifted_up (s i : Nat) (shift : s < 8) (bound : i < 8) :
    (~~~(0xFF#8 <<< s)).getLsbD i = decide (i < s) := by
  have all : ∀ s i : Fin 8, (~~~(0xFF#8 <<< s.val)).getLsbD i.val = decide (i.val < s.val) := by decide
  exact all ⟨s,shift⟩ ⟨i,bound⟩
theorem shifted_down (s i : Nat) (shift : s ≤ 8) (bound : i < 8) :
    (0xFF#8 >>> s).getLsbD i = decide (i < 8-s) := by
  have all : ∀ (s : Fin 9) (i : Fin 8), (0xFF#8 >>> s.val).getLsbD i.val = decide (i.val < 8-s.val) := by decide
  exact all ⟨s,by omega⟩ ⟨i,bound⟩

theorem value_at_stop (e : MmapEntry) (bound : i < 8) :
    (e.value (e.stop/8)).getLsbD i = decide (if e.Available then i < e.stop%8 else i < 8-e.stop%8) := by
  have rest := Nat.mod_lt e.stop (by decide : 0 < 8)
  unfold MmapEntry.value
  by_cases available : e.Available
  · rw [if_pos available,if_pos rfl,shifted_down _ _ (by omega) bound]
    simp only [available,if_true]
    congr 1
    simp only [eq_iff_iff]
    omega
  · rw [if_neg available,if_pos rfl,shifted_down _ _ (by omega) bound]
    simp [available]

def Offered (entries : List MmapEntry) (f : Nat) : Prop := ∃ e ∈ entries, e.Available ∧ e.Covers f

def OffersOnlyRam (entries : List MmapEntry) (s : Mm) : Prop :=
  ∀ f < frameCount, bit s.pageAllocBitmap f = false →
    Offered entries f ∧ (∀ e ∈ entries, ¬ e.Available → ¬ e.Covers f) ∧ 16384 ≤ f

-- What the last entry written into an eight-frame group must look like. An
-- available one that ends in the group frees the frames behind its end, a
-- reserved one that ends there frees as many frames at the top of the group as
-- it covers at the bottom, and inside a reserved one only an aligned first byte
-- is kept.
def SafeGroup (entries : List MmapEntry) (group : Nat) (e : MmapEntry) : Prop :=
  (e.Available → group = e.stop/8 → ∀ f, e.stop ≤ f → f < 8*group+8 → Offered entries f) ∧
  (e.Reserved → group = e.stop/8 → ∀ f, 8*group+8-e.stop%8 ≤ f → f < 8*group+8 → Offered entries f) ∧
  (e.Reserved → group ≠ e.stop/8 → group = e.first/8 ∧ e.first%8 = 0)

def SafeMap (entries : List MmapEntry) : Prop :=
  ∀ group, 2048 ≤ group → group < bitmapBytes → ∀ e, lastWriter entries group = some e → SafeGroup entries group e

theorem settled_bit {s : Mm} (bytes : ∀ i, 2048 ≤ i → i < bitmapBytes → s.pageAllocBitmap i = settled entries (fun _ => 0xFF#8) i)
    (low : 2048 ≤ f/8) (high : f < frameCount) (last : lastWriter entries (f/8) = some e) :
    bit s.pageAllocBitmap f = (e.value (f/8)).getLsbD (f%8) := by
  have inside : f/8 < bitmapBytes := by unfold frameCount at high; unfold bitmapBytes; omega
  rw [bit,bytes (f/8) low inside,settled,last]
  rfl

theorem safe_clear_offered (member : e ∈ entries) (writes : e.Writes (f/8)) (safe : SafeGroup entries (f/8) e)
    (clear : (e.value (f/8)).getLsbD (f%8) = false) : Offered entries f := by
  have inside : f%8 < 8 := Nat.mod_lt _ (by decide)
  obtain ⟨kind,from_,upto⟩ := writes
  by_cases ends : f/8 = e.stop/8
  · rw [ends,value_at_stop e inside,decide_eq_false_iff_not] at clear
    rcases kind with available | ⟨reserved,_⟩
    · rw [if_pos available] at clear
      exact safe.1 available ends f (by omega) (by omega)
    · rw [if_neg reserved.notAvailable] at clear
      exact safe.2.1 reserved ends f (by omega) (by omega)
  · rcases kind with available | ⟨reserved,_⟩
    · refine ⟨e,member,available,?_,by omega⟩
      by_cases begins : f/8 = e.first/8
      · have value : e.value (f/8) = ~~~(0xFF#8 <<< (e.first%8)) := by
          simp only [MmapEntry.value,available,if_true]
          rw [if_neg ends,if_pos begins]
        rw [value,shifted_up _ _ (Nat.mod_lt _ (by decide)) inside,decide_eq_false_iff_not] at clear
        omega
      · omega
    · obtain ⟨begins,aligned⟩ := safe.2.2 reserved ends
      have notAvailable := reserved.notAvailable
      have value : e.value (f/8) = 0xFF#8 >>> (e.first%8) := by
        simp only [MmapEntry.value,notAvailable,if_false]
        rw [if_neg ends,if_pos begins]
      rw [value,shifted_down _ _ (by omega) inside,decide_eq_false_iff_not] at clear
      omega

theorem reserved_clear (reserved : e.Reserved) (ends : g ≠ e.stop/8) (begins : ¬ (g = e.first/8 ∧ e.first%8 = 0)) :
    ∃ i < 8, (i = 1 ∧ g ≠ e.first/8 ∨ i = 7) ∧ (e.value g).getLsbD i = false := by
  have notAvailable := reserved.notAvailable
  by_cases starts : g = e.first/8
  · refine ⟨7,by decide,.inr rfl,?_⟩
    simp only [MmapEntry.value,notAvailable,if_false]
    rw [if_neg ends,if_pos starts,shifted_down _ _ (by omega) (by decide),decide_eq_false_iff_not]
    omega
  · refine ⟨1,by decide,.inl ⟨rfl,starts⟩,?_⟩
    simp only [MmapEntry.value,notAvailable,if_false]
    rw [if_neg ends,if_neg starts]
    decide

def Settled (entries : List MmapEntry) (s : Mm) : Prop :=
  ∀ i, 2048 ≤ i → i < bitmapBytes → s.pageAllocBitmap i = settled entries (fun _ => 0xFF#8) i

theorem offers_safe {s : Mm} (bytes : Settled entries s) (offers : OffersOnlyRam entries s) : SafeMap entries := by
  intro group low high e last
  obtain ⟨member,kind,from_,upto⟩ := lastWriter_mem last
  have clearOffered : ∀ i < 8, (e.value group).getLsbD i = false →
      Offered entries (8*group+i) ∧ ∀ e ∈ entries, ¬ e.Available → ¬ e.Covers (8*group+i) := by
    intro i bound clear
    have byteOf : (8*group+i)/8 = group := by omega
    have inside : 8*group+i < frameCount := by unfold frameCount; unfold bitmapBytes at high; omega
    have found := settled_bit bytes (by omega) inside (by rwa [byteOf])
    rw [byteOf,show (8*group+i)%8 = i by omega,clear] at found
    exact ⟨(offers _ inside found).1,(offers _ inside found).2.1⟩
  have offeredAt : ∀ f, f/8 = group → (e.value group).getLsbD (f%8) = false → Offered entries f := by
    intro f here clear
    have offered := (clearOffered (f%8) (Nat.mod_lt _ (by decide)) clear).1
    rwa [show 8*group+f%8 = f by omega] at offered
  refine ⟨?_,?_,?_⟩
  · intro available ends f least most
    apply offeredAt f (by omega)
    rw [ends,value_at_stop e (Nat.mod_lt _ (by decide)),decide_eq_false_iff_not,if_pos available]
    omega
  · intro reserved ends f least most
    apply offeredAt f (by omega)
    rw [ends,value_at_stop e (Nat.mod_lt _ (by decide)),decide_eq_false_iff_not,if_neg reserved.notAvailable]
    omega
  · intro reserved ends
    by_contra bad
    obtain ⟨i,bound,position,clear⟩ := reserved_clear reserved ends bad
    exact (clearOffered i bound clear).2 e member reserved.notAvailable ⟨by omega,by omega⟩

theorem offered_only (map : MemoryMap info entries) (offered : Offered entries f) :
    ∀ e ∈ entries, ¬ e.Available → ¬ e.Covers f := by
  obtain ⟨ram,present,available,covers⟩ := offered
  intro e member notAvailable other
  have differ : ram ≠ e := by
    intro same
    exact notAvailable (same ▸ available)
  have symmetric : Std.Symm (fun e e' : MmapEntry => ∀ f, ¬ (e.Covers f ∧ e'.Covers f)) :=
    ⟨fun _ _ apart f both => apart f both.symm⟩
  exact map.disjoint.forall present member differ f ⟨covers,other⟩

theorem safe_offers {s : Mm} (map : MemoryMap info entries) (bytes : Settled entries s)
    (kernel : ∀ i < 2048, s.pageAllocBitmap i = 0xFF#8) (safe : SafeMap entries) : OffersOnlyRam entries s := by
  intro f inside clear
  have high : f/8 < bitmapBytes := by unfold frameCount at inside; unfold bitmapBytes; omega
  have low : 2048 ≤ f/8 := by
    by_contra below
    rw [bit,kernel (f/8) (by omega),full_bit _ (Nat.mod_lt _ (by decide))] at clear
    cases clear
  have offered : Offered entries f := by
    cases last : lastWriter entries (f/8) with
    | none =>
      rw [bit,bytes (f/8) low high,settled,last] at clear
      simp only [Option.map_none,Option.getD_none] at clear
      rw [full_bit _ (Nat.mod_lt _ (by decide))] at clear
      cases clear
    | some e =>
      obtain ⟨member,writes⟩ := lastWriter_mem last
      rw [settled_bit bytes low inside last] at clear
      exact safe_clear_offered member writes (safe (f/8) low high e last) clear
  exact ⟨offered,offered_only map offered,by omega⟩

theorem mmInit_offers_only_ram_iff (info : MultibootInfo) (entries : List MmapEntry) (map : MemoryMap info entries) (s : Mm) :
    ∃ next, mmInit s info = some (.noError,next) ∧ (OffersOnlyRam entries next ↔ SafeMap entries) := by
  obtain ⟨next,ran,_,_,_,kernel,bytes⟩ := mmInit_bytes map s
  exact ⟨next,ran,offers_safe bytes,safe_offers map bytes kernel⟩

theorem clearBits_count (byte : Byte) : clearBits byte = Nat.count (fun j => byte.getLsbD j = false) 8 := by
  have all : ∀ x : Fin 256, clearBits (.ofFin x) = Nat.count (fun j => (BitVec.ofFin x : Byte).getLsbD j = false) 8 := by
    decide +kernel
  exact all byte.toFin

theorem availableBlocks_upto (bitmap : Bytes) (bytes : Nat) :
    (List.range bytes).foldl (fun count i => count+clearBits (bitmap i)) 0 = (clearSet bitmap (bytes*8)).card := by
  have counted : ∀ width, (clearSet bitmap width).card = Nat.count (fun n => bit bitmap n = false) width :=
    fun width => (Nat.count_eq_card_filter_range _ _).symm
  induction bytes with
  | zero => simp [clearSet]
  | succ bytes ih =>
    rw [List.range_succ,List.foldl_append,ih,counted,counted,Nat.succ_mul,Nat.count_add]
    have here : ∀ j < 8, (bit bitmap (bytes*8+j) = false ↔ (bitmap bytes).getLsbD j = false) := by
      intro j small
      rw [bit,show (bytes*8+j)/8 = bytes by omega,show (bytes*8+j)%8 = j by omega]
    simp only [List.foldl_cons,List.foldl_nil,clearBits_count,Nat.count_eq_card_filter_range]
    congr 2
    apply Finset.filter_congr
    intro j member
    exact (here j (Finset.mem_range.mp member)).symm

theorem mmInit_reserves (ran : mmInit s info = some (.noError,next)) : ∃ detected, next = reserveKernel s detected := by
  unfold mmInit at ran
  split at ran
  · cases ran
  · split at ran
    · cases ran
    · dsimp only at ran
      split at ran
      · cases ran
      · rename_i detected _
        cases Option.some.inj ran
        exact ⟨detected,rfl⟩

theorem reserveKernel_available (s : Mm) (detected : Bytes) :
    (reserveKernel s detected).availableBlockCount = (freeFrames (reserveKernel s detected)).card := by
  have counted := availableBlocks_upto (reserveKernel s detected).pageAllocBitmap bitmapBytes
  rw [show bitmapBytes*8 = frameCount by decide] at counted
  rw [freeFrames,← counted]
  simp only [reserveKernel,availableBlocks]

theorem reserveKernel_frames (member : f ∈ freeFrames (reserveKernel s detected)) : 16384 ≤ f := by
  obtain ⟨_,clear⟩ := mem_clearSet.mp member
  by_contra low
  have full : (reserveKernel s detected).pageAllocBitmap (f/8) = 0xFF#8 := fill_inside (Nat.zero_le _) (by omega)
  rw [bit,full,full_bit _ (Nat.mod_lt _ (by decide))] at clear
  cases clear

theorem reserveKernel_bound (s : Mm) (detected : Bytes) : (reserveKernel s detected).availableBlockCount ≤ 1048576-16384 := by
  rw [reserveKernel_available]
  have inside : freeFrames (reserveKernel s detected) ⊆ Finset.Ico 16384 1048576 := by
    intro f member
    exact Finset.mem_Ico.mpr ⟨reserveKernel_frames member,(mem_clearSet.mp member).1⟩
  simpa using Finset.card_le_card inside

-- Zeroed globals over the tables that boot.S set up, and a loader that puts a
-- list of entries at 0x9000.
def powerOn : Mm := ⟨fun _ => 0#8,fun _ => 0#8,0,Paging.archPagingInitLower ⟨fun _ => 0#32,fun _ => 0#32⟩⟩

def loaded (entries : List MmapEntry) : MultibootInfo where
  flags := 64
  mmapLength := 24*entries.length
  mmapAddr := 0x9000
  memory := fun address => (entries[(address-0x9000)/24]?).getD ⟨20,0,0,2⟩

theorem loaded_map (few : entries.length ≤ 1000) (sound : ∀ e ∈ entries, e.Sound)
    (disjoint : entries.Pairwise (fun e e' => ∀ f, ¬ (e.Covers f ∧ e'.Covers f))) :
    MemoryMap (loaded entries) entries := by
  refine ⟨show (64 >>> 6) % 2 = 1 by decide,rfl,?_,?_,sound,show 0x9000 < word by decide,disjoint⟩
  · show 24*entries.length < 4294967296
    omega
  · intro i entry found
    have bound := (List.getElem?_eq_some_iff.mp found).1
    have at_ : ((0x9000+24*i)%word-0x9000)/24 = i := by
      rw [Nat.mod_eq_of_lt (show 0x9000+24*i < word by unfold word; omega)]
      omega
    show (entries[((0x9000+24*i)%word-0x9000)/24]?).getD _ = entry
    rw [at_,found]
    rfl

-- Sixteen usable frames with eight reserved ones behind them.
def fencedRam : List MmapEntry := [⟨20,16384*4096,16*4096,1⟩,⟨20,16400*4096,8*4096,2⟩]

theorem fencedRam_loaded : MemoryMap (loaded fencedRam) fencedRam := by
  apply loaded_map (by decide)
  · intro e member
    simp only [fencedRam,List.mem_cons,List.not_mem_nil,or_false] at member
    rcases member with rfl | rfl <;> exact ⟨rfl,by decide,by decide⟩
  · simp only [fencedRam,List.pairwise_cons,List.mem_singleton,forall_eq,MmapEntry.Covers,MmapEntry.first,MmapEntry.stop]
    refine ⟨?_,by simp⟩
    intro f
    omega

theorem fencedRam_safe : SafeMap fencedRam := by
  intro group low high e last
  obtain ⟨member,_,from_,upto⟩ := lastWriter_mem last
  simp only [fencedRam,List.mem_cons,List.not_mem_nil,or_false] at member
  rcases member with rfl | rfl
  · refine ⟨?_,fun reserved => absurd rfl reserved.1,fun reserved => absurd rfl reserved.1⟩
    intro _ ends
    have here : group = 2050 := ends
    subst here
    cases (show lastWriter fencedRam 2050 = some ⟨20,16400*4096,8*4096,2⟩ by decide).symm.trans last
  · have span : 2050 ≤ group ∧ group ≤ 2051 := ⟨from_,upto⟩
    refine ⟨fun available => absurd available (by decide),?_,?_⟩
    · intro _ ends f least most
      have here : group = 2051 := ends
      subst here
      have least' : 8*2051+8-16408%8 ≤ f := least
      omega
    · intro _ ends
      have inner : group ≠ 2051 := ends
      exact ⟨show group = 2050 by omega,by decide⟩

theorem fencedRam_offers : ∃ next, mmInit powerOn (loaded fencedRam) = some (.noError,next) ∧ OffersOnlyRam fencedRam next := by
  obtain ⟨next,ran,exact_⟩ := mmInit_offers_only_ram_iff (loaded fencedRam) fencedRam fencedRam_loaded powerOn
  exact ⟨next,ran,exact_.mpr fencedRam_safe⟩

-- One usable range, 64 MiB to 128 MiB.
def plainRam : List MmapEntry := [⟨20,0x4000000,0x4000000,1⟩]

theorem plainRam_loaded : MemoryMap (loaded plainRam) plainRam := by
  refine loaded_map (by decide) ?_ (List.pairwise_singleton _ _)
  intro e member
  cases List.mem_singleton.mp member
  exact ⟨rfl,by decide,by decide⟩

-- One usable range of whole eight-frame groups: all of them end up clear, and
-- so does the group behind its end.
def ramEntry (group groups : Nat) : MmapEntry := ⟨20,32768*group,32768*groups,1⟩
def ram (group groups : Nat) : List MmapEntry := [ramEntry group groups]

theorem ram_loaded (small : group+groups ≤ 131072) : MemoryMap (loaded (ram group groups)) (ram group groups) := by
  refine loaded_map (by simp [ram]) ?_ (List.pairwise_singleton _ _)
  intro e member
  cases List.mem_singleton.mp member
  refine ⟨rfl,⟨show 32768*group%4096 = 0 by omega,show 32768*groups%4096 = 0 by omega⟩,?_⟩
  show 32768*group+32768*groups ≤ 4294967296
  omega

theorem ram_byte (bitmap : Bytes) (low : group ≤ i) (high : i ≤ group+groups) : settled (ram group groups) bitmap i = 0#8 := by
  have available : (ramEntry group groups).Available := rfl
  have first : (ramEntry group groups).first = 8*group := by
    show 32768*group/4096 = 8*group
    omega
  have stop : (ramEntry group groups).stop = 8*(group+groups) := by
    show (32768*group+32768*groups)/4096 = 8*(group+groups)
    omega
  have writes : (ramEntry group groups).Writes i := by
    refine ⟨.inl available,?_,?_⟩
    · rw [first]
      omega
    · rw [stop]
      omega
  have value : (ramEntry group groups).value i = 0#8 := by
    rw [MmapEntry.value,if_pos available,first,stop,Nat.mul_mod_right,Nat.mul_mod_right]
    split
    · decide
    · split
      · decide
      · rfl
  simp [settled,lastWriter,ram,writes,value]

theorem ram_machine (small : group+groups < 131072) : ∃ mm, mmInit powerOn (loaded (ram group groups)) = some (.noError,mm) ∧
    Finset.Ico (max 16384 (8*group)) (8*(group+groups)+8) ⊆ freeFrames mm := by
  obtain ⟨mm,ran,_,_,_,_,bytes⟩ := mmInit_bytes (ram_loaded (Nat.le_of_lt small)) powerOn
  refine ⟨mm,ran,?_⟩
  intro f member
  obtain ⟨low,high⟩ := Finset.mem_Ico.mp member
  refine mem_clearSet.mpr ⟨by unfold frameCount; omega,?_⟩
  rw [bit,bytes (f/8) (by omega) (by unfold bitmapBytes; omega),ram_byte _ (by omega) (by omega)]
  simp

theorem ram_frames (small : group+groups < 131072) (ran : mmInit powerOn (loaded (ram group groups)) = some (.noError,mm)) :
    freeFrames mm ⊆ Finset.Ico (8*group) (8*(group+groups)+8) := by
  obtain ⟨next,ran',_,_,_,taken,bytes⟩ := mmInit_bytes (ram_loaded (Nat.le_of_lt small)) powerOn
  cases Option.some.inj (ran.symm.trans ran')
  intro f member
  obtain ⟨inside,clear⟩ := mem_clearSet.mp member
  by_contra outside
  have set : mm.pageAllocBitmap (f/8) = 0xFF#8 := by
    by_cases low : f/8 < 2048
    · exact taken (f/8) low
    · rw [bytes (f/8) (by omega) (by unfold frameCount at inside; unfold bitmapBytes; omega)]
      have unwritten : ¬ (ramEntry group groups).Writes (f/8) := by
        rintro ⟨_,first,stop⟩
        have first : 32768*group/4096/8 ≤ f/8 := first
        have stop : f/8 ≤ (32768*group+32768*groups)/4096/8 := stop
        exact outside (Finset.mem_Ico.mpr ⟨by omega,by omega⟩)
      simp [settled,lastWriter,ram,unwritten]
  rw [bit,set] at clear
  have one := full_bit (f%8) (Nat.mod_lt _ (by decide))
  rw [one] at clear
  cases clear

-- Frame 32768 is the first one behind the range.
theorem plainRam_overrun : MemoryMap (loaded plainRam) plainRam ∧
    ∃ next, mmInit powerOn (loaded plainRam) = some (.noError,next) ∧ ¬ OffersOnlyRam plainRam next := by
  refine ⟨plainRam_loaded,?_⟩
  obtain ⟨next,ran,_,_,_,_,bytes⟩ := mmInit_bytes plainRam_loaded powerOn
  refine ⟨next,ran,?_⟩
  intro offers
  have clear : bit next.pageAllocBitmap 32768 = false := by
    rw [bit,bytes (32768/8) (by decide) (by decide)]
    decide
  obtain ⟨e,member,_,_,high⟩ := (offers 32768 (by decide) clear).1
  cases List.mem_singleton.mp member
  exact absurd high (by decide)

end KaracaOS.BootMap
