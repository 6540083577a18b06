import KaracaOS.ByteMemory

namespace ByteCopies
open ByteMemory

-- *dst++ = *src++ so many times; the address space has `span` bytes.
def copyLoop (span : Nat) : Nat → Nat → Nat → Bytes → Bytes
  | 0,_,_,memory => memory
  | num+1,dst,src,memory => copyLoop span num ((dst+1) % span) ((src+1) % span) (store memory dst (memory src))

-- The same loop from the address space into an array apart from it; none is a
-- write behind the array.
def copyOut (span limit : Nat) (memory : Bytes) : Nat → Nat → Nat → Bytes → Option Bytes
  | 0,_,_,array => some array
  | num+1,dst,src,array =>
    if dst < limit then copyOut span limit memory num (dst+1) ((src+1) % span) (store array dst (memory src)) else none

structure Copy where
  dst : Nat
  src : Nat
  num : Nat
  deriving DecidableEq

def Copy.placed (span to_ from_ : Nat) (c : Copy) : Copy := ⟨(to_+c.dst) % span,(from_+c.src) % span,c.num⟩

def Copy.sourced (span from_ : Nat) (c : Copy) : Copy := {c with src := (from_+c.src) % span}

def copyAll (span : Nat) (copies : List Copy) (memory : Bytes) : Bytes :=
  copies.foldl (fun memory c => copyLoop span c.num c.dst c.src memory) memory

def outAll (span limit : Nat) (memory : Bytes) (copies : List Copy) (array : Bytes) : Option Bytes :=
  copies.foldlM (fun array c => copyOut span limit memory c.num c.dst c.src array) array

variable {span limit num dst src : Nat} {memory array : Bytes} {copies : List Copy}

theorem mod_next (k : Nat) : ((dst+1) % span+k) % span = (dst+(k+1)) % span := by
  rw [Nat.mod_add_mod,Nat.add_assoc,Nat.add_comm 1 k]

theorem copyLoop_outside (small : dst < span) (away : ∀ k < num, a ≠ (dst+k) % span) : copyLoop span num dst src memory a = memory a := by
  induction num generalizing dst src memory with
  | zero => rfl
  | succ num ih =>
    have first := away 0 (Nat.succ_pos num)
    rw [Nat.add_zero,Nat.mod_eq_of_lt small] at first
    rw [copyLoop,ih (Nat.mod_lt _ (by omega)) (fun k below => by rw [mod_next]; exact away (k+1) (by omega)),store_other _ first]

theorem copyLoop_inside (high : dst+num ≤ span) (low : src+num ≤ span) (apart : src+num ≤ dst ∨ dst+num ≤ src) (inside : k < num) :
    copyLoop span num dst src memory (dst+k) = memory (src+k) := by
  induction num generalizing dst src memory k with
  | zero => cases inside
  | succ num ih =>
    rw [copyLoop]
    by_cases last : num = 0
    · subst last
      rw [Nat.lt_one_iff.mp inside]
      exact store_same _ _ _
    · rw [Nat.mod_eq_of_lt (show dst+1 < span by omega),Nat.mod_eq_of_lt (show src+1 < span by omega)]
      cases k with
      | zero =>
        rw [copyLoop_outside (by omega) (fun j below => by rw [Nat.mod_eq_of_lt (by omega)]; omega),Nat.add_zero,store_same]
        rfl
      | succ k =>
        have arrived := @ih (dst+1) (src+1) (store memory dst (memory src)) k (by omega) (by omega) (by omega) (by omega)
        rw [show dst+(k+1) = dst+1+k by omega,show src+(k+1) = src+1+k by omega,arrived]
        exact store_other _ (by omega)

theorem copyOut_iff : (∃ after, copyOut span limit memory num dst src array = some after) ↔ num = 0 ∨ dst+num ≤ limit := by
  induction num generalizing dst src array with
  | zero => simp [copyOut]
  | succ num ih =>
    rw [copyOut]
    split
    · rw [ih]
      omega
    · simp
      omega

theorem copyOut_inside (small : src < span) (ran : copyOut span limit memory num dst src array = some after) (i : Nat) :
    after i = if dst ≤ i ∧ i < dst+num then memory ((src+(i-dst)) % span) else array i := by
  induction num generalizing dst src array with
  | zero =>
    cases Option.some.inj ran
    rw [if_neg (by omega)]
  | succ num ih =>
    rw [copyOut] at ran
    split at ran
    · rw [ih (Nat.mod_lt _ (by omega)) ran]
      by_cases first : i = dst
      · subst first
        rw [if_neg (by omega),if_pos (by omega),store_same,Nat.sub_self,Nat.add_zero,Nat.mod_eq_of_lt small]
      · rw [store_other _ first]
        by_cases later : dst+1 ≤ i ∧ i < dst+1+num
        · rw [if_pos later,if_pos (by omega),mod_next,show i-(dst+1)+1 = i-dst by omega]
        · rw [if_neg later,if_neg (by omega)]
    · cases ran

theorem copyAll_outside (small : ∀ c ∈ copies, c.dst < span) (away : ∀ c ∈ copies, ∀ k < c.num, a ≠ (c.dst+k) % span) :
    copyAll span copies memory a = memory a := by
  induction copies generalizing memory with
  | nil => rfl
  | cons c rest ih =>
    show copyAll span rest (copyLoop span c.num c.dst c.src memory) a = memory a
    rw [ih (fun d member => small d (List.mem_cons_of_mem _ member)) (fun d member => away d (List.mem_cons_of_mem _ member)),
      copyLoop_outside (small c List.mem_cons_self) (away c List.mem_cons_self)]

-- Copies to places that meet neither each other nor any source.
structure Apart (span : Nat) (copies : List Copy) : Prop where
  high : ∀ c ∈ copies, c.dst < span ∧ c.dst+c.num ≤ span
  low : ∀ c ∈ copies, c.src+c.num ≤ span
  targets : copies.Pairwise (fun c d => c.dst+c.num ≤ d.dst ∨ d.dst+d.num ≤ c.dst ∨ c.num = 0 ∨ d.num = 0)
  sources : ∀ c ∈ copies, ∀ d ∈ copies, c.src+c.num ≤ d.dst ∨ d.dst+d.num ≤ c.src ∨ c.num = 0 ∨ d.num = 0

theorem Apart.tail (apart : Apart span (c::copies)) : Apart span copies :=
  ⟨fun d member => apart.high d (List.mem_cons_of_mem _ member),fun d member => apart.low d (List.mem_cons_of_mem _ member),
    (List.pairwise_cons.mp apart.targets).2,
    fun d one e two => apart.sources d (List.mem_cons_of_mem _ one) e (List.mem_cons_of_mem _ two)⟩

theorem copyAll_inside (apart : Apart span copies) (member : c ∈ copies) (inside : k < c.num) :
    copyAll span copies memory (c.dst+k) = memory (c.src+k) := by
  induction copies generalizing memory with
  | nil => cases member
  | cons d rest ih =>
    show copyAll span rest (copyLoop span d.num d.dst d.src memory) (c.dst+k) = memory (c.src+k)
    obtain ⟨small,high⟩ := apart.high d List.mem_cons_self
    rcases List.mem_cons.mp member with rfl | later
    · -- The copies behind it leave its target alone.
      have kept : ∀ e ∈ rest, ∀ j < e.num, c.dst+k ≠ (e.dst+j) % span := by
        intro e behind j below
        have beside := (List.pairwise_cons.mp apart.targets).1 e behind
        have room := apart.high e (List.mem_cons_of_mem _ behind)
        rw [Nat.mod_eq_of_lt (by omega)]
        omega
      have own := apart.sources c List.mem_cons_self c List.mem_cons_self
      rw [copyAll_outside (fun e behind => (apart.high e (List.mem_cons_of_mem _ behind)).1) kept,
        copyLoop_inside high (apart.low c List.mem_cons_self) (by omega) inside]
    · rw [ih apart.tail later]
      have beside := apart.sources c (List.mem_cons_of_mem _ later) d List.mem_cons_self
      exact copyLoop_outside small (fun j below => by rw [Nat.mod_eq_of_lt (by omega)]; omega)

theorem outAll_iff : (∃ after, outAll span limit memory copies array = some after) ↔ ∀ c ∈ copies, c.num = 0 ∨ c.dst+c.num ≤ limit := by
  induction copies generalizing array with
  | nil => simp [outAll]
  | cons c rest ih =>
    have step : outAll span limit memory (c::rest) array =
        (copyOut span limit memory c.num c.dst c.src array).bind (outAll span limit memory rest) := List.foldlM_cons
    have first := @copyOut_iff span limit c.num c.dst c.src memory array
    rw [step,List.forall_mem_cons,← first]
    cases ran : copyOut span limit memory c.num c.dst c.src array with
    | none => simp
    | some middle => simp [ih]

theorem outAll_outside (small : ∀ c ∈ copies, c.src < span) (ran : outAll span limit memory copies array = some after)
    (away : ∀ c ∈ copies, i < c.dst ∨ c.dst+c.num ≤ i) : after i = array i := by
  induction copies generalizing array with
  | nil =>
    cases Option.some.inj ran
    rfl
  | cons c rest ih =>
    obtain ⟨middle,first,later⟩ := Option.bind_eq_some_iff.mp (show (copyOut span limit memory c.num c.dst c.src array).bind
      (outAll span limit memory rest) = some after from ran)
    have beside := away c List.mem_cons_self
    rw [ih (fun d member => small d (List.mem_cons_of_mem _ member)) later (fun d member => away d (List.mem_cons_of_mem _ member)),
      copyOut_inside (small c List.mem_cons_self) first,if_neg (by omega)]

theorem outAll_inside (small : ∀ c ∈ copies, c.src < span) (targets : copies.Pairwise (fun c d => c.dst+c.num ≤ d.dst ∨ d.dst+d.num ≤ c.dst))
    (ran : outAll span limit memory copies array = some after) (member : c ∈ copies) (inside : k < c.num) :
    after (c.dst+k) = memory ((c.src+k) % span) := by
  induction copies generalizing array with
  | nil => cases member
  | cons d rest ih =>
    obtain ⟨middle,first,later⟩ := Option.bind_eq_some_iff.mp (show (copyOut span limit memory d.num d.dst d.src array).bind
      (outAll span limit memory rest) = some after from ran)
    obtain ⟨beside,tail⟩ := List.pairwise_cons.mp targets
    rcases List.mem_cons.mp member with rfl | behind
    · rw [outAll_outside (fun e member => small e (List.mem_cons_of_mem _ member)) later (fun e member => by
          have one := beside e member
          omega),copyOut_inside (small c List.mem_cons_self) first,if_pos (by omega),Nat.add_sub_cancel_left]
    · exact ih (fun e member => small e (List.mem_cons_of_mem _ member)) tail later behind

end ByteCopies
