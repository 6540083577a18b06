import KaracaOS.Ext2Blocks

namespace KaracaOS.Ext2Space
open ByteMemory Bitmap BlockDevice Ext2Fields Ext2Blocks

-- The bytes of a bitmap the search can use: it takes one block from each.
def openBytes (bitmap : Bytes) : Nat := (List.range 1024).countP fun j => bitmap j ≠ 0xFF#8

def freeBlocks (m : Mount) (g : Nat) : Nat := (clearSet (bitmapOf m.device.disk g) 8192).card

-- Success with fresh blocks if some group has enough, and otherwise an error
-- that changes nothing.
def MeetsDemand (m : Mount) (groups : Nat) (blocks : Nat → Nat) (count : Nat) : Prop :=
  ∀ ret blocks' next, allocateBlocks m blocks count = (ret,blocks',next) →
    ((∃ g < groups, count ≤ freeBlocks m g) → ret = .noError ∧ ((List.range count).map blocks').Nodup ∧
      ∀ b ∈ (List.range count).map blocks', TakenNow m next groups b) ∧
    ((∀ g < groups, freeBlocks m g < count) → ret ≠ .noError ∧ next = m)

variable {m next : Mount} {table bitmap : Bytes} {blocks blocks' : Nat → Nat} {count groups i : Nat}

theorem freeBits_length (bitmap : Bytes) (left j : Nat) :
    (freeBits bitmap left j).length = (List.range' j left).countP fun x => bitmap x ≠ 0xFF#8 := by
  induction left generalizing j with
  | zero => rfl
  | succ left ih =>
    rw [List.range'_succ,freeBits]
    by_cases full : bitmap j = 0xFF#8
    · rw [if_pos full,ih,List.countP_cons_of_neg (by simp [full])]
    · rw [if_neg full,List.length_cons,ih,List.countP_cons_of_pos (by simp [full])]

theorem openBytes_eq (bitmap : Bytes) : openBytes bitmap = (freeBits bitmap 1024 0).length := by
  rw [freeBits_length,openBytes,List.range_eq_range']

-- The bits picked are distinct clear ones, so no group runs out of bits before
-- it runs out of bytes.
theorem openBytes_le (m : Mount) (g : Nat) : openBytes (bitmapOf m.device.disk g) ≤ freeBlocks m g := by
  rw [openBytes_eq,← List.toFinset_card_of_nodup (freeBits_nodup _ _ _)]
  refine Finset.card_le_card ?_
  intro b member
  obtain ⟨_,high,clear⟩ := freeBits_clear (List.mem_toFinset.mp member)
  exact mem_clearSet.mpr ⟨by omega,clear⟩

theorem gather_true_iff (fewer : n < count) (base : Nat) (blocks : Nat → Nat) :
    (gather bitmap base count left j n blocks).1 = true ↔ count ≤ n+(freeBits bitmap left j).length := by
  induction left generalizing j n blocks with
  | zero =>
    rw [gather,freeBits]
    simpa using fewer
  | succ left ih =>
    rw [gather,freeBits]
    by_cases full : bitmap j = 0xFF#8
    · rw [if_pos full,if_pos full]
      exact ih fewer _
    · rw [if_neg full,if_neg full]
      dsimp only
      by_cases last : n+1 = count
      · rw [if_pos last,List.length_cons]
        simp only [true_iff]
        omega
      · rw [if_neg last,ih (by omega),List.length_cons]
        omega

theorem gather_open (positive : 0 < count) (base : Nat) (blocks : Nat → Nat) :
    (gather bitmap base count 1024 0 0 blocks).1 = true ↔ count ≤ openBytes bitmap := by
  rw [gather_true_iff positive,Nat.zero_add,openBytes_eq]

theorem groupLoop_ended (ran : groupLoop m table count left i blocks = (.notFound,blocks',next)) :
    ∃ g, i ≤ g ∧ g < i+left ∧ bgBlockBitmap table g = 0 := by
  induction left generalizing i blocks with
  | zero => cases ran
  | succ left ih =>
    have onward : ∀ blocks, groupLoop m table count left (i+1) blocks = (.notFound,blocks',next) →
        ∃ g, i ≤ g ∧ g < i+(left+1) ∧ bgBlockBitmap table g = 0 := by
      intro blocks rest
      obtain ⟨g,low,high,none_⟩ := ih rest
      exact ⟨g,by omega,by omega,none_⟩
    unfold groupLoop at ran
    split at ran
    · rename_i none_
      exact ⟨i,Nat.le_refl _,by omega,none_⟩
    · split at ran
      · exact onward _ ran
      · dsimp only at ran
        split at ran
        · exact onward _ ran
        · cases ran

theorem groupLoop_took (positive : 0 < count) (low : i ≤ g) (high : g < i+left) (present : ∀ h, i ≤ h → h ≤ g → bgBlockBitmap table h ≠ 0)
    (enough : count ≤ bgFreeBlocksCount table g)
    (wide : count ≤ openBytes (ext2ReadBlocks m.device (bgBlockBitmap table g) blank 1).2)
    (ran : groupLoop m table count left i blocks = (ret,blocks',next)) :
    ret = .noError ∧ ∃ g' before, g' ≤ g ∧
      gather (ext2ReadBlocks m.device (bgBlockBitmap table g') blank 1).2 (g'*sBlocksPerGroup m.superblock) count 1024 0 0 before
        = (true,blocks') ∧
      next = takeBlocks m table (ext2ReadBlocks m.device (bgBlockBitmap table g') blank 1).2 g' count blocks' := by
  induction left generalizing i blocks with
  | zero => omega
  | succ left ih =>
    unfold groupLoop at ran
    rw [if_neg (present i (Nat.le_refl _) low)] at ran
    split at ran
    · rename_i few
      have later : i ≠ g := by
        rintro rfl
        omega
      exact ih (by omega) (by omega) (fun h after upto => present h (by omega) upto) ran
    · dsimp only at ran
      split at ran
      · rename_i gathered
        have later : i ≠ g := by
          rintro rfl
          have found := (gather_open positive (i*sBlocksPerGroup m.superblock) blocks).mpr wide
          rw [gathered] at found
          cases found
        exact ih (by omega) (by omega) (fun h after upto => present h (by omega) upto) ran
      · rename_i gathered
        cases ran
        exact ⟨rfl,i,blocks,low,gathered,rfl⟩

theorem charted_read (charted : Charted m groups) (b : Nat) : (ext2ReadBlocks m.device b blank 1).2 = blockImage m.device.disk b := by
  rw [read_local charted.sectors]

theorem wide_group_taken (charted : Charted m groups) (positive : 1 ≤ count) (inside : g < groups)
    (wide : count ≤ openBytes (bitmapOf m.device.disk g)) (ran : allocateBlocks m blocks count = (ret,blocks',next)) :
    ret = .noError ∧ ((List.range count).map blocks').Nodup ∧ ∀ b ∈ (List.range count).map blocks', TakenNow m next groups b := by
  have few := charted.few
  have enough : count ≤ bgFreeBlocksCount (tableOf m.device.disk) g := by
    rw [charted.counted g inside]
    exact Nat.le_trans wide (openBytes_le m g)
  rw [allocateBlocks,charted_read charted] at ran
  obtain ⟨rfl,g',before,upto,gathered,rfl⟩ := groupLoop_took positive (Nat.zero_le g) (by omega)
    (fun h _ below => charted.present h (by omega)) enough (by rw [charted_read charted]; exact wide) ran
  rw [charted_read charted] at gathered ⊢
  have within : g' < groups := by omega
  obtain ⟨bits,length,distinct,clear,listed,taken⟩ := charted.took within positive gathered
  rw [listed]
  exact ⟨rfl,distinct.map (fun x y same => by omega),taken.fresh within charted.perGroup clear⟩

theorem narrow_groups_refused (charted : Charted m groups) (positive : 1 ≤ count)
    (narrow : ∀ g < groups, openBytes (bitmapOf m.device.disk g) < count) (ran : allocateBlocks m blocks count = (ret,blocks',next)) :
    next = m ∧ (ret ≠ .noError ↔ groups < 32) := by
  rw [allocateBlocks,charted_read charted] at ran
  cases groupLoop_cases ran with
  | ended =>
    refine ⟨rfl,fun _ => ?_,fun _ bad => by cases bad⟩
    obtain ⟨g,_,high,none_⟩ := groupLoop_ended ran
    by_contra full
    exact charted.present g (by omega) none_
  | exhausted all =>
    refine ⟨rfl,fun bad => absurd rfl bad,fun less => ?_⟩
    exact absurd (charted.ended less) (all groups (Nat.zero_le _) (by omega))
  | @took g before _ _ high used enough gathered =>
    have few := charted.few
    have inside : g < groups := by
      by_contra beyond
      exact used groups (Nat.zero_le _) (by omega) (charted.ended (by omega))
    have wide := (gather_open positive _ before).mp (congrArg Prod.fst gathered)
    rw [charted_read charted] at wide
    have short : openBytes (blockImage m.device.disk (bgBlockBitmap (tableOf m.device.disk) g)) < count := narrow g inside
    exact absurd wide (by show ¬ count ≤ openBytes (blockImage m.device.disk (bgBlockBitmap (tableOf m.device.disk) g)); omega)

theorem allocation_meets_demand_iff (charted : Charted m groups) (positive : 1 ≤ count) (blocks : Nat → Nat) :
    MeetsDemand m groups blocks count ↔
      (∃ g < groups, count ≤ openBytes (bitmapOf m.device.disk g)) ∨ (∀ g < groups, freeBlocks m g < count) ∧ groups < 32 := by
  cases ran : allocateBlocks m blocks count with
  | mk ret rest =>
    obtain ⟨blocks',next⟩ := rest
    constructor
    · intro meets
      by_contra neither
      simp only [not_or,not_exists,not_and,Nat.not_le] at neither
      obtain ⟨narrow,full⟩ := neither
      obtain ⟨kept,error⟩ := narrow_groups_refused charted positive narrow ran
      obtain ⟨served,refused⟩ := meets ret blocks' next ran
      by_cases none_ : ∀ g < groups, freeBlocks m g < count
      · exact full none_ (error.mp (refused none_).1)
      · push Not at none_
        -- The first block handed out would be clear before and set after.
        obtain ⟨_,_,fresh⟩ := served none_
        obtain ⟨_,_,clear,set⟩ := fresh (blocks' 0) (List.mem_map.mpr ⟨0,List.mem_range.mpr positive,rfl⟩)
        rw [kept,clear] at set
        cases set
    · rintro (⟨g,inside,wide⟩ | ⟨none_,less⟩)
      · intro ret' other after same
        cases ran.symm.trans same
        refine ⟨fun _ => wide_group_taken charted positive inside wide ran,fun none_ => ?_⟩
        have short := none_ g inside
        have most := openBytes_le m g
        omega
      · intro ret' other after same
        cases ran.symm.trans same
        have narrow : ∀ g < groups, openBytes (bitmapOf m.device.disk g) < count :=
          fun g inside => Nat.lt_of_le_of_lt (openBytes_le m g) (none_ g inside)
        obtain ⟨kept,error⟩ := narrow_groups_refused charted positive narrow ran
        refine ⟨?_,fun _ => ⟨error.mpr less,kept⟩⟩
        rintro ⟨g,inside,enough⟩
        have short := none_ g inside
        omega

theorem one_block_meets_demand : Charted oneFreeMount 1 ∧ MeetsDemand oneFreeMount 1 (fun _ => 0) 1 := by
  have wide : 1 ≤ openBytes (bitmapOf oneFreeMount.device.disk 0) := by
    refine List.countP_pos_iff.mpr ⟨100,List.mem_range.mpr (by decide),?_⟩
    show decide (bitmapOf oneFreeDisk 0 100 ≠ 0xFF#8) = true
    rw [oneFree_byte (by decide)]
    decide
  exact ⟨oneFree_balanced.charted,
    (allocation_meets_demand_iff oneFree_balanced.charted (by decide) (fun _ => 0)).mpr (.inl ⟨0,by decide,wide⟩)⟩

-- One group with two free blocks, both of byte 100.
def twoFreeDisk : Bytes := put16 (store oneFreeDisk 3172 0xFC#8) 2060 2
def twoFreeMount : Mount := ⟨⟨512,8192,twoFreeDisk,blank,[]⟩,put32 (put32 (put32 blank 12 2) 32 8192) 40 1712⟩

theorem twoFree_byte (small : j < 1024) : bitmapOf twoFreeDisk 0 j = if j = 100 then 0xFC#8 else 0xFF#8 := by
  have position : bgBlockBitmap (tableOf twoFreeDisk) 0 = 3 := by decide
  have before : bgBlockBitmap (tableOf oneFreeDisk) 0 = 3 := by decide
  have start : offset 3 = 3072 := rfl
  have old := oneFree_byte small
  rw [bitmapOf,before,blockImage_byte _ _ small,start] at old
  rw [bitmapOf,position,blockImage_byte _ _ small,start,twoFreeDisk,put16_other (by omega)]
  by_cases here : j = 100
  · subst here
    rfl
  · rw [if_neg here] at old ⊢
    rw [store_other _ (by omega),old]

theorem twoFree_bit (small : n < 8192) : bit (bitmapOf twoFreeDisk 0) n = false ↔ n = 800 ∨ n = 801 := by
  rw [bit,twoFree_byte (by omega)]
  by_cases here : n/8 = 100
  · have cases_ : ∀ i : Fin 8, (0xFC#8).getLsbD i = false ↔ i.val = 0 ∨ i.val = 1 := by decide
    rw [if_pos here,cases_ ⟨n%8,Nat.mod_lt _ (by decide)⟩]
    show n%8 = 0 ∨ n%8 = 1 ↔ n = 800 ∨ n = 801
    omega
  · rw [if_neg here,full_bit _ (Nat.mod_lt _ (by decide))]
    simp only [Bool.true_eq_false,false_iff]
    omega

theorem twoFree_card : freeBlocks twoFreeMount 0 = 2 := by
  have both : clearSet (bitmapOf twoFreeDisk 0) 8192 = {800,801} := by
    ext n
    rw [mem_clearSet,Finset.mem_insert,Finset.mem_singleton]
    constructor
    · rintro ⟨bound,clear⟩
      exact (twoFree_bit bound).mp clear
    · intro either
      have bound : n < 8192 := by omega
      exact ⟨bound,(twoFree_bit bound).mpr either⟩
  show (clearSet (bitmapOf twoFreeDisk 0) 8192).card = 2
  rw [both]
  rfl

theorem twoFree_charted : Charted twoFreeMount 1 := by
  have one : ∀ i < 1, i = 0 := by omega
  have perGroup : sBlocksPerGroup twoFreeMount.superblock = 8192 := by decide
  refine ⟨rfl,by decide,by rw [perGroup]; decide,fun _ => by decide,?_,?_,?_,?_,?_⟩
  · intro i below
    cases one i below
    decide
  · intro i below
    cases one i below
    decide
  · intro i below j below' differ
    omega
  · intro i below n beyond bound
    rw [perGroup] at beyond
    omega
  · intro i below
    cases one i below
    refine Eq.trans ?_ twoFree_card.symm
    decide

-- A request of two blocks: both are free, but the search takes one of a byte.
theorem two_blocks_refused : Charted twoFreeMount 1 ∧ 2 ≤ freeBlocks twoFreeMount 0 ∧ ¬ MeetsDemand twoFreeMount 1 (fun _ => 0) 2 := by
  refine ⟨twoFree_charted,Nat.le_of_eq twoFree_card.symm,?_⟩
  intro meets
  have enough : ∃ g < 1, 2 ≤ freeBlocks twoFreeMount g := ⟨0,by decide,Nat.le_of_eq twoFree_card.symm⟩
  have refused : (allocateBlocks twoFreeMount (fun _ => 0) 2).1 = .notFound := by decide +kernel
  cases ran : allocateBlocks twoFreeMount (fun _ => 0) 2 with
  | mk ret rest =>
    obtain ⟨blocks,next⟩ := rest
    have success := ((meets ret blocks next ran).1 enough).1
    rw [ran] at refused
    rw [show ret = .notFound from refused] at success
    cases success

end KaracaOS.Ext2Space
