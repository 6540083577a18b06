import KaracaOS.Ext2Directory

namespace KaracaOS.Ext2Appends
open ByteMemory Bitmap BlockDevice Ext2Fields Ext2Inodes Ext2Records Ext2Directory

-- What ext2_add_link does to the buffer it walks, on any contents.
def appendLink (buffer : Bytes) (link : Link) : Option Bytes :=
  (walkDirectory buffer).map fun walked =>
    putRecord buffer walked.2.bufferPos link.inode link.bytes link.name.length link.type.toNat

def appendLinks (buffer : Bytes) : List Link → Option Bytes
  | [] => some buffer
  | link::rest => (appendLink buffer link).bind (appendLinks · rest)

-- The inodes and names that a walk over the block shows.
def listing (block : Bytes) : Option (List (Nat × List Byte)) :=
  (walkDirectory block).map fun walked => walked.1.map fun element => (element.inode,elementName block element)

variable {m next : Mount} {groups dir : Nat} {link : Link} {links before : List Link} {buffer block left right : Bytes}

-- A run of links, for a directory that may hold anything.
structure Appended (m next : Mount) (groups dir : Nat) (buffer : Bytes) : Prop where
  sectors : next.device.sectorSize = 512
  superblock : next.superblock = m.superblock
  table : blockImage next.device.disk 2 = blockImage m.device.disk 2
  bitmap : ∀ k, InRange m groups k → taken next k = taken m k
  blocks : ∀ k, InRange m groups k → iBlock (stored next k) 0 = iBlock (stored m k) 0
  holds : loaded next dir = buffer
  others : ∀ b, Outside m groups b → slot b ≠ slot (iBlock (stored m dir) 0) →
    blockImage next.device.disk b = blockImage m.device.disk b

theorem Appended.none (entry : Entry m groups dir) : Appended m m groups dir (loaded m dir) :=
  ⟨entry.store.sectors,rfl,rfl,fun _ _ => rfl,fun _ _ => rfl,rfl,fun _ _ _ => rfl⟩

theorem Appended.entry (appended : Appended m next groups dir buffer) (entry : Entry m groups other) : Entry next groups other := by
  refine ⟨entry.store.same appended.sectors appended.superblock appended.table,(inRange_same appended.superblock).mpr entry.range,
    (appended.bitmap _ entry.range).trans entry.allocated,?_⟩
  rw [appended.blocks _ entry.range]
  exact entry.outside.same appended.superblock appended.table

theorem Appended.trans {middle : Mount} (first : Appended m middle groups dir buffer) (rest : Appended middle next groups dir after)
    (range : InRange m groups dir) : Appended m next groups dir after := by
  have inside : ∀ k, InRange m groups k → InRange middle groups k := fun k => (inRange_same first.superblock).mpr
  refine ⟨rest.sectors,rest.superblock.trans first.superblock,rest.table.trans first.table,?_,?_,rest.holds,?_⟩
  · intro k belongs
    exact (rest.bitmap k (inside k belongs)).trans (first.bitmap k belongs)
  · intro k belongs
    exact (rest.blocks k (inside k belongs)).trans (first.blocks k belongs)
  · intro b outside differ
    rw [rest.others b (outside.same first.superblock first.table) (by rwa [first.blocks dir range]),first.others b outside differ]

theorem append_ran (entry : Entry m groups dir) (range : InRange m groups link.inode) (allocated : taken m link.inode = true)
    (appended : appendLink (loaded m dir) link = some buffer) :
    ∃ next, ext2AddLink m dir link.bytes link.type.toNat link.name.length link.inode = some (.noError,next) ∧
      Appended m next groups dir buffer := by
  obtain ⟨⟨passed,last⟩,walked,rfl⟩ := Option.map_eq_some_iff.mp appended
  obtain ⟨middle,next,ran,filled,wrote,tail⟩ := entry.add range allocated walked
  have effect := entry.linked filled wrote range allocated
  have here := effect.block entry.range
  refine ⟨next,ran,effect.sectors,effect.superblock,effect.table,effect.bitmap,fun k belongs => effect.block belongs,?_,?_⟩
  · funext i
    by_cases inside : i < 1024
    · rw [loaded_agree next dir i (Nat.zero_le _) (by omega),dirBlock,here,entry.kept filled wrote range entry.outside,filled.disk]
      exact blockImage_put_same _ _ rfl i (Nat.zero_le _) (by omega)
    · rw [loaded,blit_outside (.inr (by omega))]
      exact tail i (by omega)
  · intro b outside differ
    rw [entry.kept filled wrote range outside,filled.elsewhere differ]

theorem targets_same (targets : Targets m groups links) (appended : Appended m next groups dir buffer) : Targets next groups links := by
  intro one member
  obtain ⟨range,allocated⟩ := targets one member
  exact ⟨(inRange_same appended.superblock).mpr range,(appended.bitmap _ range).trans allocated⟩

theorem targets_rest (targets : Targets m groups (link::links)) : Targets m groups links :=
  fun one member => targets one (List.mem_cons_of_mem _ member)

theorem appends_ran (entry : Entry m groups dir) (targets : Targets m groups links)
    (appended : appendLinks (loaded m dir) links = some buffer) :
    ∃ next, addLinks m dir links = some next ∧ Appended m next groups dir buffer := by
  induction links generalizing m with
  | nil =>
    cases Option.some.inj appended
    exact ⟨m,rfl,.none entry⟩
  | cons link rest ih =>
    obtain ⟨range,allocated⟩ := targets link List.mem_cons_self
    obtain ⟨one,first,others⟩ := Option.bind_eq_some_iff.mp appended
    obtain ⟨middle,ran,effect⟩ := append_ran entry range allocated first
    rw [← effect.holds] at others
    obtain ⟨next,runs,all⟩ := ih (effect.entry entry) (targets_same (targets_rest targets) effect) others
    refine ⟨next,?_,effect.trans all entry.range⟩
    rw [addLinks,ran]
    exact runs

theorem appends_never (entry : Entry m groups dir) (targets : Targets m groups links)
    (endless : appendLinks (loaded m dir) links = none) : addLinks m dir links = none := by
  induction links generalizing m with
  | nil => cases endless
  | cons link rest ih =>
    obtain ⟨range,allocated⟩ := targets link List.mem_cons_self
    rw [appendLinks] at endless
    cases first : appendLink (loaded m dir) link with
    | none =>
      rw [addLinks,entry.stuck range (Option.map_eq_none_iff.mp first)]
    | some buffer =>
      obtain ⟨middle,ran,effect⟩ := append_ran entry range allocated first
      rw [first,Option.bind_some,← effect.holds] at endless
      rw [addLinks,ran]
      exact ih (effect.entry entry) (targets_same (targets_rest targets) effect) endless

theorem appends_listed (listed : Listed buffer 0 before) (nonzero : ∀ link ∈ before++links, link.inode ≠ 0 ∧ link.inode < word)
    (ended : get32 buffer (totalSize before) = 0) (fits : totalSize (before++links)+8 ≤ 1024) :
    ∃ after, appendLinks buffer links = some after ∧ Listed after 0 (before++links) ∧ get32 after (totalSize (before++links)) = 0 ∧
      SameTail after buffer := by
  induction links generalizing before buffer with
  | nil => exact ⟨buffer,rfl,by rwa [List.append_nil],by rwa [List.append_nil],fun _ _ => rfl⟩
  | cons link rest ih =>
    have room : totalSize before+link.size+8 ≤ 1024 := by
      simp only [totalSize,List.map_append,List.sum_append,List.map_cons,List.sum_cons] at fits ⊢
      omega
    have few := length_totalSize before
    have walked := listed.walk (fun one member => (nonzero one (List.mem_append_left _ member)).1) (by rwa [Nat.zero_add])
      (by unfold word; omega) (show before.length < word by unfold word; omega)
    rw [Nat.zero_add] at walked
    have small := (nonzero link (List.mem_append_right _ List.mem_cons_self)).2
    obtain ⟨same,record,ended',_⟩ := putRecord_record buffer (totalSize before) small
    have behind : SameTail (putRecord buffer (totalSize before) link.inode link.bytes link.name.length link.type.toNat) buffer :=
      fun i high => putRecord_behind buffer link (by omega)
    have first : appendLink buffer link =
        some (putRecord buffer (totalSize before) link.inode link.bytes link.name.length link.type.toNat) := by
      rw [appendLink,walkDirectory,ext2InitDirWalk,walked]
      rfl
    generalize putRecord buffer (totalSize before) link.inode link.bytes link.name.length link.type.toNat = middle at same record ended' behind first
    rw [show before++link::rest = before++[link]++rest by simp] at nonzero fits ⊢
    have longer : Listed middle 0 (before++[link]) := (listed.agree same.symm).append (by rwa [Nat.zero_add])
    obtain ⟨after,runs,all,last,tail⟩ := ih longer nonzero (by rwa [totalSize_append]) fits
    exact ⟨after,by rw [appendLinks,first,Option.bind_some,runs],all,last,tail.trans behind⟩

theorem listing_listed (listed : Listed block 0 links) (nonzero : ∀ link ∈ links, link.inode ≠ 0) (ended : get32 block (totalSize links) = 0)
    (fits : totalSize links+8 ≤ 1024) : listing block = some (links.map fun link => (link.inode,link.name)) := by
  have few := length_totalSize links
  have walked := listed.walk nonzero (by rwa [Nat.zero_add]) (by unfold word; omega) (show links.length < word by unfold word; omega)
  have names := congrArg (List.map fun entry : Nat × Nat × List Byte => (entry.1,entry.2.2)) listed.seen
  rw [List.map_map,List.map_map] at names
  rw [listing,walkDirectory,ext2InitDirWalk,walked,Option.map_some]
  exact congrArg some names

-- The positions of a walk. One that ends does so at the first unused record.
def posAt (buffer : Bytes) : Nat → Nat
  | 0 => 0
  | k+1 => (posAt buffer k+get16 buffer (posAt buffer k+4))%word

structure Walk (buffer : Bytes) (n : Nat) : Prop where
  used : ∀ k < n, get32 buffer (posAt buffer k) ≠ 0
  ended : get32 buffer (posAt buffer n) = 0

theorem dirWalk_positions (ran : dirWalk buffer fuel (elementAt buffer (posAt buffer k)) = some (passed,last)) :
    (∀ j < passed.length, get32 buffer (posAt buffer (k+j)) ≠ 0) ∧ get32 buffer (posAt buffer (k+passed.length)) = 0 ∧
      last = elementAt buffer (posAt buffer (k+passed.length)) ∧
      passed = (List.range passed.length).map fun j => elementAt buffer (posAt buffer (k+j)) := by
  induction fuel generalizing k passed with
  | zero => cases ran
  | succ fuel ih =>
    rw [dirWalk] at ran
    split at ran
    · rename_i unused
      cases ran
      exact ⟨fun _ inside => absurd inside (Nat.not_lt_zero _),unused,rfl,rfl⟩
    · rename_i used
      obtain ⟨⟨rest,last'⟩,later,same⟩ := Option.map_eq_some_iff.mp ran
      cases same
      have onward : ext2DirWalkNext buffer (elementAt buffer (posAt buffer k)) = elementAt buffer (posAt buffer (k+1)) := rfl
      rw [onward] at later
      obtain ⟨all,ended,end_,elements⟩ := ih later
      simp only [Nat.add_assoc,Nat.add_comm 1] at all ended end_ elements
      refine ⟨?_,ended,end_,?_⟩
      · intro j inside
        cases j with
        | zero => exact used
        | succ j => exact all j (by simpa using inside)
      · rw [List.length_cons,List.range_succ_eq_map,List.map_cons,List.map_map,Nat.add_zero]
        exact congrArg _ elements

theorem walkDirectory_positions (ran : walkDirectory buffer = some (passed,last)) :
    Walk buffer passed.length ∧ last.bufferPos = posAt buffer passed.length ∧
      passed = (List.range passed.length).map fun j => elementAt buffer (posAt buffer j) := by
  have start : dirWalk buffer word (elementAt buffer (posAt buffer 0)) = some (passed,last) := ran
  obtain ⟨used,ended,end_,elements⟩ := dirWalk_positions start
  simp only [Nat.zero_add] at used ended end_ elements
  exact ⟨⟨used,ended⟩,by rw [end_]; rfl,elements⟩

theorem listing_shows (shown : listing block = some entries) : Walk block entries.length ∧ ∀ k < entries.length,
    entries[k]? = some (get32 block (posAt block k),elementName block (elementAt block (posAt block k))) := by
  obtain ⟨⟨passed,last⟩,ran,same⟩ := Option.map_eq_some_iff.mp shown
  obtain ⟨walk,_,elements⟩ := walkDirectory_positions ran
  have long : entries.length = passed.length := by rw [← same,List.length_map]
  rw [long]
  refine ⟨walk,?_⟩
  intro k inside
  rw [← same,elements]
  simp [inside,elementAt]

def ZeroFrom (buffer : Bytes) (stop : Nat) : Prop := ∀ i, stop ≤ i → buffer i = 0#8

theorem ZeroFrom.unused (zero : ZeroFrom buffer stop) (beyond : stop ≤ pos) : get32 buffer pos = 0 := by
  simp only [get32,get16,get8,zero pos beyond,zero (pos+1) (by omega),zero (pos+2) (by omega),zero (pos+2+1) (by omega)]
  rfl

theorem posAt_lt (buffer : Bytes) (k : Nat) : posAt buffer k < word := by
  cases k with
  | zero => exact (by decide : 0 < word)
  | succ k => exact Nat.mod_lt _ (by decide)

-- A record length of zero would hold the walk for ever.
theorem Walk.advances (walk : Walk buffer n) (inside : k < n) : 0 < get16 buffer (posAt buffer k+4) := by
  by_contra none_
  have zero : get16 buffer (posAt buffer k+4) = 0 := by omega
  have stays : ∀ j, posAt buffer (k+j) = posAt buffer k := by
    intro j
    induction j with
    | zero => rfl
    | succ j ih => rw [← Nat.add_assoc,posAt,ih,zero,Nat.add_zero,Nat.mod_eq_of_lt (posAt_lt buffer k)]
  have ended := walk.ended
  rw [show n = k+(n-k) by omega,stays] at ended
  exact walk.used k inside ended

-- With nothing behind some place a walk cannot come round.
theorem Walk.step (walk : Walk buffer n) (zero : ZeroFrom buffer stop) (small : stop ≤ 1000000) (inside : k < n) :
    posAt buffer (k+1) = posAt buffer k+get16 buffer (posAt buffer k+4) ∧ posAt buffer k < stop := by
  have before : posAt buffer k < stop := by
    by_contra beyond
    exact walk.used k inside (zero.unused (by omega))
  have length := get16_lt buffer (posAt buffer k+4)
  refine ⟨?_,before⟩
  rw [posAt,Nat.mod_eq_of_lt]
  unfold word
  omega

theorem Walk.increases (walk : Walk buffer n) (zero : ZeroFrom buffer stop) (small : stop ≤ 1000000) (less : j < k) (inside : k ≤ n) :
    posAt buffer j < posAt buffer k := by
  induction k with
  | zero => cases less
  | succ k ih =>
    have step := (walk.step zero small (show k < n by omega)).1
    have forward := walk.advances (show k < n by omega)
    by_cases last : j = k
    · rw [last]
      omega
    · have earlier := ih (by omega) (by omega)
      omega

theorem Walk.late (walk : Walk buffer n) (zero : ZeroFrom buffer stop) (small : stop ≤ 1000000) (inside : k ≤ n) :
    posAt buffer k ≤ posAt buffer n := by
  by_cases last : k = n
  · rw [last]
  · exact Nat.le_of_lt (walk.increases zero small (by omega) (Nat.le_refl n))

theorem unused_bytes (unused : get32 buffer pos = 0) :
    get8 buffer pos = 0 ∧ get8 buffer (pos+1) = 0 ∧ get8 buffer (pos+2) = 0 ∧ get8 buffer (pos+3) = 0 := by
  simp only [get32,get16] at unused
  rw [show pos+3 = pos+2+1 from rfl]
  omega

theorem Walk.gap (walk : Walk buffer (n+1)) (zero : ZeroFrom buffer stop) (small : stop ≤ 1000000) :
    posAt buffer n+5 ≤ posAt buffer (n+1) := by
  have step := (walk.step zero small (Nat.lt_succ_self n)).1
  have forward := walk.advances (Nat.lt_succ_self n)
  obtain ⟨first,second,third,fourth⟩ := unused_bytes walk.ended
  by_contra close
  have length : get16 buffer (posAt buffer n+4) = get8 buffer (posAt buffer n+4)+256*get8 buffer (posAt buffer n+4+1) := rfl
  have one : get8 buffer (posAt buffer n+4) = 0 := by
    rcases (show posAt buffer n+4 = posAt buffer (n+1) ∨ posAt buffer n+4 = posAt buffer (n+1)+1 ∨
        posAt buffer n+4 = posAt buffer (n+1)+2 ∨ posAt buffer n+4 = posAt buffer (n+1)+3 by omega) with same | same | same | same <;>
      rw [same] <;> assumption
  omega

theorem Walk.same (walk : Walk buffer (n+1)) (zero : ZeroFrom buffer stop) (small : stop ≤ 1000000)
    (agree : Agree block buffer 0 limit) (room : posAt buffer n+5 ≤ limit) (inside : k ≤ n) :
    posAt block k = posAt buffer k ∧ get32 block (posAt block k) ≠ 0 := by
  have early : posAt buffer k ≤ posAt buffer n := by
    by_cases last : k = n
    · rw [last]
    · exact Nat.le_of_lt (walk.increases zero small (by omega) (Nat.le_succ n))
  have same : posAt block k = posAt buffer k := by
    clear early
    induction k with
    | zero => rfl
    | succ k ih =>
      have before := walk.increases zero small (show k < n by omega) (Nat.le_succ n)
      rw [posAt,posAt,ih (by omega),get16_agree (agree.narrow (Nat.zero_le _) (by omega))]
  refine ⟨same,?_⟩
  rw [same,get32_agree (agree.narrow (Nat.zero_le _) (by omega))]
  exact walk.used k (by omega)

theorem Walk.unique (walk : Walk buffer n) (other : Walk buffer count) : n = count := by
  rcases Nat.lt_trichotomy n count with less | same | more
  · exact absurd walk.ended (other.used n less)
  · exact same
  · exact absurd other.ended (walk.used count more)

-- One record put at the end of a walk over other entries.
structure PutBehind (old first : Bytes) (n : Nat) : Prop where
  walk : Walk old (n+1)
  zero : ZeroFrom old 1024
  before : Agree first old 0 (posAt old (n+1))
  record : Record first (posAt old (n+1)) dot

variable {old first : Bytes} {n : Nat}

theorem PutBehind.gap (put : PutBehind old first n) : posAt old n+5 ≤ posAt old (n+1) := put.walk.gap put.zero (by decide)

theorem PutBehind.same (put : PutBehind old first n) (agree : Agree block first 0 (posAt old (n+1))) (inside : k ≤ n) :
    posAt block k = posAt old k ∧ get32 block (posAt block k) ≠ 0 :=
  put.walk.same put.zero (by decide) (agree.trans put.before) put.gap inside

theorem PutBehind.step (put : PutBehind old first n) : posAt old (n+1) = posAt old n+get16 old (posAt old n+4) :=
  (put.walk.step put.zero (by decide) (Nat.lt_succ_self n)).1

-- At distance five the new inode number is the upper byte of the last record
-- length, which grows by 512.
theorem PutBehind.onward (put : PutBehind old first n) (agree : Agree block first 0 (posAt old (n+1)+1)) :
    get16 block (posAt old n+4) = if posAt old (n+1) = posAt old n+5 then 517 else get16 old (posAt old n+4) := by
  have gap := put.gap
  have step := put.step
  have below := agree.narrow (Nat.le_refl 0) (show 0+posAt old (n+1) ≤ 0+(posAt old (n+1)+1) by omega)
  have olds := below.trans put.before
  split
  · rename_i close
    obtain ⟨unused,_⟩ := unused_bytes put.walk.ended
    have inode := put.record.inode
    have new : get8 block (posAt old n+4+1) = get8 first (posAt old (n+1)) := by
      rw [close]
      exact get8_agree (agree.narrow (Nat.zero_le _) (by omega))
    have two : get8 first (posAt old (n+1)) = 2 := by
      have small := get8_lt first (posAt old (n+1))
      have value : get32 first (posAt old (n+1)) = 2 := inode
      unfold get32 get16 at value
      omega
    have low : get8 block (posAt old n+4) = get8 old (posAt old n+4) := get8_agree (olds.narrow (Nat.zero_le _) (by omega))
    have five : get8 old (posAt old n+4) = 5 := by
      have length : get16 old (posAt old n+4) = 5 := by omega
      have high : get8 old (posAt old n+4+1) = 0 := by
        rw [close] at unused
        exact unused
      unfold get16 at length
      omega
    rw [get16,new,two,low,five]
  · exact get16_agree (olds.narrow (Nat.zero_le _) (by omega))

theorem PutBehind.late (put : PutBehind old first n) (agree : Agree block first 0 (posAt old (n+1)+12)) (walk : Walk block count)
    (zero : ZeroFrom block stop) (small : stop ≤ 1000000) : posAt old (n+1)+12 ≤ posAt block count := by
  have below : Agree block first 0 (posAt old (n+1)) := agree.narrow (Nat.le_refl 0) (by omega)
  obtain ⟨position,used⟩ := put.same below (Nat.le_refl n)
  have more : n < count := by
    by_contra few
    have ended := walk.ended
    exact (put.same below (show count ≤ n by omega)).2 ended
  have step := (walk.step zero small more).1
  rw [position,put.onward (agree.narrow (Nat.le_refl 0) (by omega))] at step
  split at step
  · have reached := walk.late zero small (show n+1 ≤ count by omega)
    omega
  · rw [← put.step] at step
    have inode : get32 block (posAt block (n+1)) = 2 := by
      rw [step,get32_agree (agree.narrow (Nat.zero_le _) (by omega))]
      exact put.record.inode
    have further : n+1 < count := by
      by_contra last
      have ended := walk.ended
      rw [show count = n+1 by omega,inode] at ended
      cases ended
    have length : get16 block (posAt block (n+1)+4) = 12 := by
      rw [step,get16_agree (agree.narrow (Nat.zero_le _) (by omega))]
      exact put.record.recLen
    have next := (walk.step zero small further).1
    have reached := walk.late zero small (show n+1+1 ≤ count by omega)
    rw [length,step] at next
    omega

theorem elementName_length (block : Bytes) (pos : Nat) : (elementName block (elementAt block pos)).length = get8 block (pos+6) := by
  rw [elementName,List.length_map,List.length_range]
  rfl

theorem PutBehind.shown (put : PutBehind old first n) (zero : ZeroFrom block 1024) (inside : posAt old (n+1) < 1024)
    (kept : ∀ i < posAt old (n+1)+12, i < 1024 → block i = first i) (shown : listing block = some entries) :
    (∃ (k inode : Nat), entries[k]? = some (inode,[])) ∨ ∃ (k : Nat) (name : List Byte), entries[k+1]? = some (2,name) ∧ name.length ≤ 1 := by
  obtain ⟨walk,seen⟩ := listing_shows shown
  have agree : Agree block first 0 (posAt old (n+1)+1) := fun i _ high => kept i (by omega) (by omega)
  have below : Agree block first 0 (posAt old (n+1)) := agree.narrow (Nat.le_refl 0) (by omega)
  obtain ⟨position,used⟩ := put.same below (Nat.le_refl n)
  have more : n < entries.length := by
    by_contra few
    exact (put.same below (show entries.length ≤ n by omega)).2 walk.ended
  -- Behind the block the record is cut off and zeroes follow.
  have bytes : ∀ j < 12, get8 block (posAt old (n+1)+j) = get8 first (posAt old (n+1)+j) ∨ get8 block (posAt old (n+1)+j) = 0 := by
    intro j small
    by_cases here : posAt old (n+1)+j < 1024
    · exact .inl (by rw [get8,kept _ (by omega) here]; rfl)
    · exact .inr (by rw [get8,zero _ (by omega)]; rfl)
  have inode : get32 first (posAt old (n+1)) = 2 := put.record.inode
  have two : get8 first (posAt old (n+1)) = 2 ∧ get8 first (posAt old (n+1)+1) = 0 ∧ get8 first (posAt old (n+1)+2) = 0 ∧
      get8 first (posAt old (n+1)+3) = 0 := by
    have small := get8_lt first (posAt old (n+1))
    simp only [get32,get16] at inode
    rw [show posAt old (n+1)+3 = posAt old (n+1)+2+1 from rfl]
    omega
  have step := (walk.step zero (by decide) more).1
  rw [position,put.onward agree] at step
  split at step
  · rename_i close
    left
    have empty : (elementName block (elementAt block (posAt block n))).length = 0 := by
      rw [elementName_length,position,show posAt old n+6 = posAt old (n+1)+1 by omega]
      have byte := bytes 1 (by decide)
      omega
    have last := seen n more
    rw [List.length_eq_zero_iff.mp empty] at last
    exact ⟨n,_,last⟩
  · right
    rw [← put.step] at step
    have second : get32 block (posAt block (n+1)) = 2 := by
      have byte0 : get8 block (posAt old (n+1)) = get8 first (posAt old (n+1)) := by rw [get8,kept _ (by omega) inside]; rfl
      have byte1 := bytes 1 (by decide)
      have byte2 := bytes 2 (by decide)
      have byte3 := bytes 3 (by decide)
      rw [step,get32,get16,get16,show posAt old (n+1)+2+1 = posAt old (n+1)+3 from rfl]
      omega
    have further : n+1 < entries.length := by
      by_contra last
      have ended := walk.ended
      rw [show entries.length = n+1 by omega,second] at ended
      cases ended
    have new := seen (n+1) further
    rw [second] at new
    refine ⟨n,_,new,?_⟩
    have byte := bytes 6 (by decide)
    have one : get8 first (posAt old (n+1)+6) = 1 := put.record.nameLen
    rw [elementName_length,step]
    omega

theorem Walk.beyond (walk : Walk old (n+1)) (zero : ZeroFrom old 1024) (high : 1024 ≤ posAt old (n+1)) (named : posAt old n+6 < 1024)
    (agree : Agree block old 0 1024) (memory : ∀ i, 1024 ≤ i → block i = 0xFF#8) : ¬ Walk block (n+1) := by
  intro other
  have position := (walk.same zero (by decide) agree (by omega) (Nat.le_refl n)).1
  have end_ : posAt block (n+1) = posAt old (n+1) := by
    rw [posAt,posAt,position,get16_agree (agree.narrow (Nat.zero_le _) (by omega))]
  have unused := (unused_bytes other.ended).1
  rw [end_,get8,memory _ high] at unused
  cases unused

end KaracaOS.Ext2Appends
