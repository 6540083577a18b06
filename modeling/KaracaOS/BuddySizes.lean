import KaracaOS.BuddyRuns

namespace KaracaOS.BuddySizes
open MemoryManager BootMap BuddyArena BuddyTree BuddyAllocator BuddyPages BuddyRuns DyadicTree StepRuns

-- mm_available_block_count is set by mm_init and never changed again.
def Metered (s : System) : Prop := s.allocator.mm.availableBlockCount ≤ 1032192

theorem allocPages_available (ran : allocPages pages i mm = some (ret,next)) : next.availableBlockCount = mm.availableBlockCount := by
  replace ran := allocPages_rounds ran
  induction ran with
  | through => rfl
  | stopped _ => rfl
  | taken _ _ _ ih => exact ih

theorem freePages_available (pages i : Nat) (mm : Mm) : (freePages pages i mm).availableBlockCount = mm.availableBlockCount := by
  induction pages generalizing i mm with
  | zero => rfl
  | succ pages ih => exact ih _ _

theorem started_metered (start : Started s) : Metered s := by
  obtain ⟨_,info,mm,old,booted,ran⟩ := start
  obtain ⟨paged,_,_⟩ := init_grown ran
  obtain ⟨detected,rfl⟩ := mmInit_reserves booted
  unfold Metered
  rw [(arenaPages_after paged).available]
  exact reserveKernel_bound _ _

theorem metered_step (metered : Metered s) (held : Held s n t) (taken : serve s request = some next) : Metered next := by
  unfold Metered at metered ⊢
  cases request with
  | alloc len =>
    cases serve_alloc taken with
    | refused _ => exact metered
    | unfound _ => exact metered
    | unbacked _ paged _ =>
      rw [← allocPages_available paged] at metered
      exact metered
    | done _ paged =>
      rw [← allocPages_available paged] at metered
      exact metered
  | free addr =>
    by_cases start : addr = windowStart
    · subst start
      simp only [serve,free_start held.grown,Option.some.injEq] at taken
      subst taken
      rw [← freePages_available 524288 windowStart] at metered
      exact metered
    · simp only [serve,free_other held.grown start,Option.some.injEq] at taken
      subst taken
      exact metered

def Watched (s : System) : Prop := Tended s ∧ Metered s

theorem reached_watched (path : Reached Started serve admits s) : Watched s := by
  refine path.invariant Watched (fun s start => ⟨⟨_,_,started_held start⟩,started_metered start⟩) ?_
  rintro s request next ⟨⟨n,t,held⟩,metered⟩ _ taken
  refine ⟨?_,metered_step metered held taken⟩
  cases request with
  | alloc len => exact held.alloc taken
  | free addr => exact ⟨n,t,held.free taken⟩

theorem between_powers (large : 4096 < len) (notPower : ¬ ∃ k, len = 2^k) : ∃ j, 2^j < len ∧ len < 2^(j+1) ∧ 12 ≤ j := by
  refine ⟨Nat.log 2 len,?_,Nat.lt_pow_succ_log_self (by decide) len,?_⟩
  · have below := Nat.pow_log_le_self 2 (show len ≠ 0 by omega)
    have differ : 2^Nat.log 2 len ≠ len := fun same => notPower ⟨_,same.symm⟩
    omega
  · have monotone := Nat.log_mono_right (b := 2) (Nat.le_of_lt large)
    rwa [show Nat.log 2 4096 = 12 by norm_num [Nat.log_eq_iff]] at monotone

theorem fitting_next (above : 2^j < len) (below : len < 2^(j+1)) (small : len < 2^30) : Fitting len (2^(j+2)) ∧ j+2 ≤ 31 := by
  have double : 2^(j+1) = 2*2^j := by ring
  have four : 2^(j+2) = 4*2^j := by ring
  have level : j < 30 := (Nat.pow_lt_pow_iff_right (a := 2) (by decide)).mp (by omega)
  refine ⟨⟨?_,?_⟩,by omega⟩
  · rw [Nat.mod_eq_of_lt (show 2*len < word by unfold word; omega)]
    omega
  · rw [Nat.mod_eq_of_lt (show 4*len < word by unfold word; omega)]
    omega

-- A length on which every block in the size window is at least as long.
def Served (len : Nat) : Prop := len ≤ 4096 ∨ (len < 2^30 ∧ ¬ ∃ k, len = 2^k) ∨ 0xFC000000 < len

theorem found_long_enough (served : len ≤ 4096 ∨ (len < 2^30 ∧ ¬ ∃ k, len = 2^k)) (least : 12 ≤ level)
    (none : ∀ p, level < p → p ≤ 31 → ¬ Fitting len (2^p)) : len ≤ 2^level := by
  have page : 2^12 ≤ 2^level := Nat.pow_le_pow_right (by decide) least
  by_cases small : len ≤ 4096
  · omega
  · obtain ⟨low,notPower⟩ := served.resolve_left small
    obtain ⟨j,above,below,_⟩ := between_powers (by omega) notPower
    obtain ⟨fits,top⟩ := fitting_next above below low
    have reached : j+2 ≤ level := by
      by_contra higher
      exact none (j+2) (by omega) top fits
    have larger : 2^(j+2) ≤ 2^level := Nat.pow_le_pow_right (by decide) reached
    have double : 2^(j+2) = 2*2^(j+1) := by ring
    omega

theorem unserved_short (bad : ¬ Served len) (small : len < word) (top : k ≤ 31) (size : Fitting len (2^k) ∨ k = 12) : 2^k < len := by
  unfold Served at bad
  push Not at bad
  obtain ⟨large,power,_⟩ := bad
  have bound : 2^k ≤ 2^31 := Nat.pow_le_pow_right (by decide) top
  rcases size with ⟨low,high⟩ | rfl
  · unfold word at low high small
    by_cases less : len < 2^30
    · obtain ⟨j,rfl⟩ := power less
      rw [Nat.mod_eq_of_lt (by omega)] at low high
      have up : j+1 < k := (Nat.pow_lt_pow_iff_right (a := 2) (by decide)).mp (by rw [pow_succ]; omega)
      have down : k < j+2 := (Nat.pow_lt_pow_iff_right (a := 2) (by decide)).mp (by rw [pow_add]; omega)
      omega
    · omega
  · omega

-- A machine on which nearly all of the 4 GiB is usable serves every request that
-- it does not refuse.
theorem unserved_request (small : len < word) (bad : ¬ Served len) : ∃ s addr node next,
    Reached Started serve (fun _ r => r.Proper) s ∧ buddyAllocatorAlloc s.allocator len = some (.ok (addr,node),next) ∧
      (next.arena.node node).len < len := by
  obtain ⟨mm,booted,frames⟩ := ram_machine (show 0+131071 < 131072 by decide)
  have card : 1032192 ≤ (freeFrames mm).card := by simpa using Finset.card_le_card frames
  have bound : (freeFrames mm).card ≤ 1032192 := by
    obtain ⟨detected,rfl⟩ := mmInit_reserves booted
    rw [← reserveKernel_available]
    exact reserveKernel_bound _ _
  obtain ⟨start,started,_,fresh⟩ := started_fresh booted (by omega)
  have left := fresh.frames
  have paid : ¬ remMem start.allocator < len := by
    unfold Served at bad
    push Not at bad
    have limit := bad.2.2
    rw [remMem,fresh.available,show (freeFrames mm).card = 1032192 by omega]
    unfold word
    omega
  have room : ∀ k ≤ 31, 12 ≤ k → Fitting len (2^k) ∨ k = 12 → 2^k/4096 ≤ (freeFrames start.allocator.mm).card := by
    intro k top _ _
    have most : 2^k ≤ 2^31 := Nat.pow_le_pow_right (by decide) top
    omega
  obtain ⟨node,next,k,ran,_,_,size,top,_,window⟩ := fresh.alloc paid room
  refine ⟨start,_,node,next,.start started,ran,?_⟩
  rw [size]
  exact unserved_short bad small top window

theorem served_request (served : Served len) (path : Reached Started serve (fun _ r => r.Proper) s)
    (ran : buddyAllocatorAlloc s.allocator len = some (.ok (addr,node),next)) : len ≤ (next.arena.node node).len := by
  obtain ⟨⟨n,t,held⟩,metered⟩ := reached_watched path
  cases alloc_cases ran with
  | @done arena _ mm paid searched _ =>
    obtain ⟨n',t',_,grown,found⟩ := held.grown.search searched
    obtain ⟨b,leaf,rfl,_,_,none⟩ := found _ rfl
    obtain ⟨_,_,least,_⟩ := leaf_inside grown.planted.fits leaf
    have size : (arena.node b.label).len = 2^b.level := (grown.block leaf).2.1
    show len ≤ ((markAllocated arena b.label true).node b.label).len
    rw [(markAllocated_same arena b.label true b.label).len,size]
    have affordable : len ≤ 0xFC000000 := by
      unfold Metered at metered
      unfold remMem word at paid
      omega
    refine found_long_enough ?_ least none
    rcases served with tiny | plain | huge
    · exact .inl tiny
    · exact .inr plain
    · omega

theorem alloc_long_enough_iff (len : Nat) (small : len < word) :
    (∀ s, Reached Started serve (fun _ r => r.Proper) s → ∀ addr node next,
      buddyAllocatorAlloc s.allocator len = some (.ok (addr,node),next) → len ≤ (next.arena.node node).len) ↔ Served len := by
  constructor
  · intro enough
    by_contra bad
    obtain ⟨s,addr,node,next,path,ran,short⟩ := unserved_request small bad
    have long := enough s path addr node next ran
    omega
  · intro served s path addr node next ran
    exact served_request served path ran

theorem alloc_100_long_enough : ∃ s addr node next, Reached Started serve (fun _ r => r.Proper) s ∧
    buddyAllocatorAlloc s.allocator 100 = some (.ok (addr,node),next) ∧ 100 ≤ (next.arena.node node).len := by
  obtain ⟨start,s,node,started,ran,_⟩ := first_page (show 100 ≤ 65536 by decide) (by decide)
  have enough := (alloc_long_enough_iff 100 (by decide)).mpr (.inl (by decide))
  exact ⟨start,_,node,s,.start started,ran,enough start (.start started) _ node s ran⟩

theorem alloc_8192_short : ∃ s addr node next, Reached Started serve (fun _ r => r.Proper) s ∧
    buddyAllocatorAlloc s.allocator 8192 = some (.ok (addr,node),next) ∧ (next.arena.node node).len = 4096 := by
  obtain ⟨start,s,node,started,ran,_,_,_,len⟩ := first_page (show 8192 ≤ 65536 by decide) (by decide)
  exact ⟨start,_,node,s,.start started,ran,len⟩

end KaracaOS.BuddySizes
