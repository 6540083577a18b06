import KaracaOS.SysDefs

namespace KaracaOS.Processes

def maxProc : Nat := 32768

-- proc_info_t without the saved registers.
structure ProcInfo where
  exists_ : Bool
  id : Nat
  flags : Nat
  priority : Nat
  irq : Nat
  deriving DecidableEq

structure ProcTable where
  processes : Nat → ProcInfo
  nextProcId : Nat

def initialTable : ProcTable := ⟨fun _ => ⟨false,0,0,0,0⟩,0⟩

-- The while loop of get_next_proc_id, for so many rounds; it has no other end.
def getNextProcId : Nat → (Nat → ProcInfo) → Nat → Option Nat
  | 0,_,_ => none
  | rounds+1,processes,current =>
    if (processes current).exists_ then
      getNextProcId rounds processes (if current+1 = maxProc then 0 else current+1)
    else some current

-- The priority asked for is not stored.
def procCreateProcess (rounds : Nat) (s : ProcTable) (_ : BitVec 8) : Option (SysRet × Nat × ProcTable) :=
  let id := s.nextProcId
  let processes := Function.update s.processes id ⟨true,id,0,0,0⟩
  (getNextProcId rounds processes id).map fun next => (.noError,id,⟨processes,next⟩)

-- Calls one after the other, each of which comes back, with what they answer.
inductive Creates : ProcTable → List (BitVec 8) → List (SysRet × Nat) → ProcTable → Prop where
  | nil : Creates s [] [] s
  | call : procCreateProcess rounds s priority = some (ret,given,middle) → Creates middle priorities answers last →
      Creates s (priority::priorities) ((ret,given)::answers) last

-- The calls come back with ids of their own, and where no slot is left the
-- next call fails and leaves the table as it is.
def UniqueIds (priorities : List (BitVec 8)) : Prop :=
  ∃ answers last, Creates initialTable priorities answers last ∧
    ((answers.filter fun answer => answer.1 = .noError).map Prod.snd).Nodup ∧
    (∀ answer ∈ answers, answer.1 = .noError → answer.2 < maxProc ∧ (last.processes answer.2).exists_ = true ∧
      (last.processes answer.2).id = answer.2) ∧
    ((∀ i < maxProc, (last.processes i).exists_ = true) → ∀ priority, ∃ rounds ret given,
      procCreateProcess rounds last priority = some (ret,given,last) ∧ ret ≠ .noError)

variable {s middle last : ProcTable} {priorities : List (BitVec 8)} {answers : List (SysRet × Nat)} {n rounds : Nat}

-- The first n slots are in use and the next one is remembered.
structure Filled (n : Nat) (s : ProcTable) : Prop where
  room : n < maxProc
  used : ∀ i, (s.processes i).exists_ = decide (i < n)
  ids : ∀ i < n, (s.processes i).id = i
  next : s.nextProcId = n

theorem initial_filled : Filled 0 initialTable := ⟨by decide,fun _ => rfl,fun _ none => absurd none (Nat.not_lt_zero _),rfl⟩

theorem search_stuck {processes : Nat → ProcInfo} (all : ∀ i < maxProc, (processes i).exists_ = true) (inside : current < maxProc) (rounds : Nat) :
    getNextProcId rounds processes current = none := by
  induction rounds generalizing current with
  | zero => rfl
  | succ rounds ih =>
    rw [getNextProcId,if_pos (all current inside)]
    split
    · exact ih (by decide)
    · exact ih (by omega)

theorem filled_used (filled : Filled n s) (i : Nat) :
    ((Function.update s.processes n ⟨true,n,0,0,0⟩) i).exists_ = decide (i < n+1) ∧
      (i < n+1 → ((Function.update s.processes n ⟨true,n,0,0,0⟩) i).id = i) := by
  rw [Function.update_apply]
  by_cases here : i = n
  · subst here
    simp
  · rw [if_neg here,filled.used]
    refine ⟨?_,fun below => filled.ids i (by omega)⟩
    rw [decide_eq_decide]
    omega

theorem create_filled (filled : Filled n s) (priority : BitVec 8) (room : n+1 < maxProc) : ∃ next, Filled (n+1) next ∧
    procCreateProcess 2 s priority = some (.noError,n,next) := by
  have used := filled_used filled
  have found : getNextProcId 2 (Function.update s.processes n ⟨true,n,0,0,0⟩) n = some (n+1) := by
    rw [getNextProcId,if_pos (by rw [(used n).1]; simp),if_neg (by omega),getNextProcId,if_neg (by rw [(used (n+1)).1]; simp)]
  refine ⟨⟨Function.update s.processes n ⟨true,n,0,0,0⟩,n+1⟩,⟨room,fun i => (used i).1,fun i below => (used i).2 below,rfl⟩,?_⟩
  unfold procCreateProcess
  dsimp only
  rw [filled.next,found]
  rfl

theorem search_same {processes : Nat → ProcInfo} (one : getNextProcId rounds processes current = some first)
    (two : getNextProcId more processes current = some second) : first = second := by
  induction rounds generalizing current more with
  | zero => cases one
  | succ rounds ih =>
    cases more with
    | zero => cases two
    | succ more =>
      rw [getNextProcId] at one two
      split at one
      · rename_i used
        rw [if_pos used] at two
        exact ih one two
      · rename_i free
        rw [if_neg free] at two
        exact Option.some.inj (one.symm.trans two)

theorem create_same (one : procCreateProcess rounds s priority = some first) (two : procCreateProcess more s priority = some second) :
    first = second := by
  unfold procCreateProcess at one two
  dsimp only at one two
  obtain ⟨next,found,rfl⟩ := Option.map_eq_some_iff.mp one
  obtain ⟨next',found',rfl⟩ := Option.map_eq_some_iff.mp two
  rw [search_same found found']

-- The call that takes the last slot does not come back.
theorem create_stuck (filled : Filled n s) (full : n+1 = maxProc) (rounds : Nat) (priority : BitVec 8) : procCreateProcess rounds s priority = none := by
  have all : ∀ i < maxProc, ((Function.update s.processes n ⟨true,n,0,0,0⟩) i).exists_ = true := by
    intro i inside
    rw [(filled_used filled i).1,decide_eq_true_eq]
    omega
  have stuck := search_stuck all filled.room rounds
  unfold procCreateProcess
  dsimp only
  rw [filled.next,stuck]
  rfl

theorem creates_counts (filled : Filled n s) (ran : Creates s priorities answers last) :
    answers = (List.range' n priorities.length).map (fun id => (.noError,id)) ∧ Filled (n+priorities.length) last := by
  induction ran generalizing n with
  | nil => exact ⟨rfl,filled⟩
  | call called _ ih =>
    rename_i s priority _ _ _ _ _ _ _
    by_cases room : n+1 < maxProc
    · obtain ⟨next,after,created⟩ := create_filled filled priority room
      obtain ⟨rfl,rfl,rfl⟩ : _ ∧ _ ∧ _ := by
        have same := create_same called created
        simpa using same
      obtain ⟨same,later⟩ := ih after
      rw [Nat.add_right_comm] at later
      rw [List.length_cons,List.range'_succ,List.map_cons,same]
      exact ⟨rfl,later⟩
    · have below := filled.room
      rw [create_stuck filled (by omega)] at called
      cases called

theorem creates_run (filled : Filled n s) (few : n+priorities.length < maxProc) : ∃ answers last, Creates s priorities answers last := by
  induction priorities generalizing n s with
  | nil => exact ⟨[],s,.nil⟩
  | cons priority priorities ih =>
    rw [List.length_cons] at few
    obtain ⟨next,after,created⟩ := create_filled filled priority (by omega)
    obtain ⟨answers,last,ran⟩ := ih after (by omega)
    exact ⟨_,last,.call created ran⟩

theorem unique_ids_iff (priorities : List (BitVec 8)) : UniqueIds priorities ↔ priorities.length < maxProc := by
  constructor
  · rintro ⟨answers,last,ran,_⟩
    have room := (creates_counts initial_filled ran).2.room
    omega
  · intro few
    obtain ⟨answers,last,ran⟩ := creates_run initial_filled (by omega : 0+priorities.length < maxProc)
    obtain ⟨same,filled⟩ := creates_counts initial_filled ran
    rw [Nat.zero_add] at filled
    refine ⟨answers,last,ran,?_,?_,?_⟩
    · have all : answers.filter (fun answer => answer.1 = .noError) = answers := by
        rw [List.filter_eq_self,same]
        intro answer member
        obtain ⟨id,_,rfl⟩ := List.mem_map.mp member
        rfl
      rw [all,same,List.map_map]
      show ((List.range' 0 priorities.length).map id).Nodup
      rw [List.map_id]
      exact List.nodup_range'
    · intro answer member _
      rw [same] at member
      obtain ⟨i,inside,rfl⟩ := List.mem_map.mp member
      obtain ⟨_,high⟩ := List.mem_range'_1.mp inside
      refine ⟨by omega,?_,filled.ids i (by omega)⟩
      rw [filled.used]
      exact decide_eq_true (by omega)
    · intro all
      have free := all priorities.length few
      rw [filled.used,decide_eq_true_eq] at free
      exact absurd free (Nat.lt_irrefl _)

-- The call that fills the table.
theorem last_slot_hangs : ¬ UniqueIds (List.replicate 32768 0) ∧ ∀ answers last, Creates initialTable (List.replicate 32767 0) answers last →
    ∀ rounds priority, procCreateProcess rounds last priority = none := by
  constructor
  · rintro ⟨answers,last,ran,_⟩
    have room := (creates_counts initial_filled ran).2.room
    rw [List.length_replicate] at room
    exact absurd room (by decide)
  · intro answers last ran rounds priority
    have filled := (creates_counts initial_filled ran).2
    rw [List.length_replicate] at filled
    exact create_stuck filled rfl rounds priority

end KaracaOS.Processes
