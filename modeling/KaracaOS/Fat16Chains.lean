import KaracaOS.Fat16Volume
import KaracaOS.PointerChains

namespace KaracaOS.Fat16Chains
open ByteMemory BlockDevice Fat16Volume PointerChains

def chainEnd : Nat := 0xFFFF

-- context->buffer after fat16_read_cluster(context, cluster, context->buffer)
def load (c : Context) (cluster : Nat) : Context := {c with buffer := fat16ReadCluster c cluster c.buffer}

def fatCluster (c : Context) (currentCluster : Nat) : Nat :=
  (c.fatStart/c.sectorsPerCluster+currentCluster*2%word/c.clusterSize)%word

-- fat[current_cluster % cluster_size], an index of 16-bit entries.
def fatIndexed (c : Context) (currentCluster : Nat) : Nat := get16 c.buffer (2*(currentCluster%c.clusterSize))

-- The elements written to out_chain, one after the other, and the context with the
-- buffer as the last read leaves it. A next cluster of 0 is the `while(1);`.
def chainLoop (c : Context) : Nat → Nat → Option (List Nat × Context)
  | 0,_ => none
  | fuel+1,currentCluster =>
    let c := load c (fatCluster c currentCluster)
    let next := fatIndexed c currentCluster
    if next = 0 then none
    else if next = chainEnd then some ([currentCluster,chainEnd],c)
    else (chainLoop c fuel next).map fun (outChain,c) => (currentCluster::outChain,c)

-- Enough for every loop that ends, see chainLoop_returns.
def chainFuel : Nat := 65536

-- none: the division by a cluster size of zero, or a loop without end.
def fat16ReadClusterFatChain (c : Context) (cluster : Nat) : Option (List Nat × Context) :=
  if c.clusterSize = 0 then none else chainLoop c chainFuel cluster

def link (c : Context) (currentCluster : Nat) : Nat := fatIndexed (load c (fatCluster c currentCluster)) currentCluster

def ChainEnds (c : Context) (cluster k : Nat) : Prop := Ends (link c) (· = chainEnd) (· = 0) cluster k

variable {c : Context}

@[simp] theorem load_load (c : Context) (one two : Nat) : load (load c one) two = load c two := by
  simp only [load,readCluster_buffer,readCluster_again]

@[simp] theorem link_load (c : Context) (cluster : Nat) : link (load c cluster) = link c := by
  funext current
  rw [link,show fatCluster (load c cluster) current = fatCluster c current from rfl,load_load,link]

theorem load_byte (sectors : c.device.sectorSize = 512) (memory : Bytes) (cluster : Nat) (inside : j < c.clusterSize) :
    (load {c with buffer := memory} cluster).buffer j = clusterByte c cluster j := by
  show fat16ReadCluster {c with buffer := memory} cluster memory j = _
  rw [readCluster_buffer,readCluster_byte sectors,if_pos inside]

theorem link_lt (c : Context) (current : Nat) : link c current < 65536 := get16_lt _ _

theorem chainLoop_walk (c : Context) (fuel cluster : Nat) :
    match walk (link c) (· = chainEnd) (· = 0) fuel cluster with
    | some passed => ∃ last, chainLoop c fuel cluster = some (passed++[chainEnd],load c last)
    | none => chainLoop c fuel cluster = none := by
  induction fuel generalizing c cluster with
  | zero => rfl
  | succ fuel ih =>
    have later := ih (load c (fatCluster c cluster)) (link c cluster)
    rw [link_load] at later
    rw [walk,chainLoop]
    simp only [show fatIndexed (load c (fatCluster c cluster)) cluster = link c cluster from rfl]
    by_cases held : link c cluster = 0
    · simp only [held,if_true]
    · by_cases stops : link c cluster = chainEnd
      · simp only [stops,show ¬ chainEnd = 0 by decide,if_true,if_false]
        exact ⟨_,rfl⟩
      · simp only [held,stops,if_false]
        cases walked : walk (link c) (· = chainEnd) (· = 0) fuel (link c cluster) with
        | none =>
          rw [walked] at later
          rw [Option.map_none]
          dsimp only at later ⊢
          rw [later]
          rfl
        | some passed =>
          rw [walked] at later
          obtain ⟨last,ran⟩ := later
          rw [Option.map_some]
          dsimp only
          rw [ran]
          exact ⟨last,by rw [load_load]; rfl⟩

theorem ChainEnds.short (ends : ChainEnds c cluster k) : k ≤ chainFuel := by
  have short := Ends.short ends (Finset.range 65536) (fun y => Finset.mem_range.mpr (link_lt c y))
  rwa [Finset.card_range] at short

theorem chainLoop_ends (ran : chainLoop c fuel cluster = some (chain,after)) :
    ∃ k last, ChainEnds c cluster k ∧ chain = trail (link c) cluster k++[chainEnd] ∧ after = load c last := by
  have walked := chainLoop_walk c fuel cluster
  split at walked
  · rename_i passed same
    obtain ⟨k,_,ends,rfl⟩ := (walk_iff _ _ _).mp same
    obtain ⟨last,again⟩ := walked
    rw [ran] at again
    cases Option.some.inj again
    exact ⟨k,last,ends,rfl,rfl⟩
  · rw [ran] at walked
    cases walked

theorem chainLoop_of_ends (ends : ChainEnds c cluster k) (enough : k ≤ fuel) :
    ∃ last, chainLoop c fuel cluster = some (trail (link c) cluster k++[chainEnd],load c last) := by
  have walked := chainLoop_walk c fuel cluster
  rw [(walk_iff _ _ _).mpr ⟨k,enough,ends,rfl⟩] at walked
  exact walked

theorem chainLoop_returns (ran : chainLoop c fuel cluster = some (chain,after)) :
    ∃ after, chainLoop c chainFuel cluster = some (chain,after) := by
  obtain ⟨k,last,ends,rfl,rfl⟩ := chainLoop_ends ran
  obtain ⟨last,returns⟩ := chainLoop_of_ends ends ends.short
  exact ⟨_,returns⟩

theorem chain_cases (ran : fat16ReadClusterFatChain c cluster = some (chain,after)) :
    c.clusterSize ≠ 0 ∧ ∃ k last, ChainEnds c cluster k ∧ chain = trail (link c) cluster k++[chainEnd] ∧ after = load c last := by
  unfold fat16ReadClusterFatChain at ran
  split at ran
  · cases ran
  · rename_i divides
    exact ⟨divides,chainLoop_ends ran⟩

theorem chain_of_ends (divides : c.clusterSize ≠ 0) (ends : ChainEnds c cluster k) :
    ∃ last, fat16ReadClusterFatChain c cluster = some (trail (link c) cluster k++[chainEnd],load c last) := by
  rw [fat16ReadClusterFatChain,if_neg divides]
  exact chainLoop_of_ends ends ends.short

theorem chain_of_walk (divides : c.clusterSize ≠ 0) (walked : walk (link c) (· = chainEnd) (· = 0) fuel cluster = some passed) :
    ∃ after, fat16ReadClusterFatChain c cluster = some (passed++[chainEnd],after) := by
  obtain ⟨k,_,ends,rfl⟩ := (walk_iff _ _ _).mp walked
  obtain ⟨last,ran⟩ := chain_of_ends divides ends
  exact ⟨_,ran⟩

def clusterChainLength : Nat := 128
def fatChainLength : Nat := 1024

def Returns (c : Context) (cluster : Nat) : Prop := ∃ chain after, fat16ReadClusterFatChain c cluster = some (chain,after)

def FitsInto (c : Context) (cluster limit : Nat) : Prop :=
  ∃ chain after, fat16ReadClusterFatChain c cluster = some (chain,after) ∧ chain.length ≤ limit

theorem fits_iff (c : Context) (cluster limit : Nat) :
    FitsInto c cluster (limit+1) ↔ c.clusterSize ≠ 0 ∧ ∃ k ≤ limit, ChainEnds c cluster k := by
  constructor
  · rintro ⟨chain,after,ran,few⟩
    obtain ⟨divides,k,_,ends,rfl,_⟩ := chain_cases ran
    rw [List.length_append,trail_length,List.length_singleton] at few
    exact ⟨divides,k,by omega,ends⟩
  · rintro ⟨divides,k,few,ends⟩
    obtain ⟨last,ran⟩ := chain_of_ends divides ends
    refine ⟨_,_,ran,?_⟩
    rw [List.length_append,trail_length,List.length_singleton]
    omega

theorem chain_bounded_iff (c : Context) (cluster : Nat) :
    (Returns c cluster ↔ c.clusterSize ≠ 0 ∧ ∃ k, ChainEnds c cluster k) ∧
    (FitsInto c cluster clusterChainLength ↔ c.clusterSize ≠ 0 ∧ ∃ k ≤ 127, ChainEnds c cluster k) ∧
    (FitsInto c cluster fatChainLength ↔ c.clusterSize ≠ 0 ∧ ∃ k ≤ 1023, ChainEnds c cluster k) := by
  refine ⟨?_,fits_iff c cluster 127,fits_iff c cluster 1023⟩
  constructor
  · rintro ⟨chain,after,ran⟩
    obtain ⟨divides,k,_,ends,_⟩ := chain_cases ran
    exact ⟨divides,k,ends⟩
  · rintro ⟨divides,k,ends⟩
    obtain ⟨last,ran⟩ := chain_of_ends divides ends
    exact ⟨_,_,ran⟩

-- One-sector clusters, the FAT in sector 1.
def smallContext (disk memory : Bytes) : Context := ⟨⟨512,16384,disk,blank,[]⟩,bootSector 1 1 2 512 32,1,65,97,memory⟩

-- Cluster 2 is linked to itself.
theorem ring_never_ends : link (smallContext (put16 blank 516 2) blank) 2 = 2 ∧ ¬ Returns (smallContext (put16 blank 516 2) blank) 2 := by
  have ring : link (smallContext (put16 blank 516 2) blank) 2 = 2 := by decide
  refine ⟨ring,?_⟩
  rintro ⟨chain,after,ran⟩
  obtain ⟨_,k,_,ends,_⟩ := chain_cases ran
  have stops := ends.stops
  rw [Function.iterate_fixed ring] at stops
  cases stops

-- The FAT of the format: 16-bit entries from fat_start on.
def fatEntry (c : Context) (cluster : Nat) : Nat := get16 c.device.disk (c.fatStart*512+2*cluster)

-- A volume of any cluster size whose FAT starts with a cluster.
structure FatVolume (c : Context) : Prop where
  sectors : c.device.sectorSize = 512
  clusters : 0 < c.sectorsPerCluster
  start : c.fatStart = reservedSectors c.bootSector
  aligned : c.sectorsPerCluster ∣ c.fatStart

-- The list linked in the FAT from a cluster on, and the mark at its end.
inductive Linked (c : Context) : Nat → List Nat → Nat → Prop where
  | last : 2 ≤ x → x ≤ 0xFFEF → 0xFFF8 ≤ fatEntry c x → Linked c x [x] (fatEntry c x)
  | next : 2 ≤ x → x ≤ 0xFFEF → Linked c (fatEntry c x) chain mark → Linked c x (x::chain) mark

-- Whatever memory lies behind the buffer of one cluster.
def ChainFollowed (c : Context) (cluster : Nat) (chain : List Nat) : Prop :=
  ∀ memory, ∃ after, fat16ReadClusterFatChain {c with buffer := memory} cluster = some (chain++[chainEnd],after)

def InReach (c : Context) (cluster : Nat) : Prop := cluster%c.clusterSize < c.clusterSize/2

instance (c : Context) (cluster : Nat) : Decidable (InReach c cluster) := inferInstanceAs (Decidable (_ < _))

theorem fatCluster_in_reach (volume : FatVolume c) (small : x < 65536) (reach : InReach c x) :
    (fatCluster c x*c.sectorsPerCluster+c.sectorsPerCluster ≤ word) ∧
    fatCluster c x*c.sectorsPerCluster*512+2*(x%c.clusterSize) = c.fatStart*512+2*x := by
  obtain ⟨p,fat⟩ := volume.aligned
  have size := clusterSize_sectors volume.sectors
  have positive := volume.clusters
  have few := sectorsPerCluster_small c
  have reserved : c.fatStart < 65536 := by
    rw [volume.start]
    exact get16_lt _ _
  have split := Nat.div_add_mod x c.clusterSize
  rw [InReach] at reach
  generalize x/c.clusterSize = q at split
  generalize x%c.clusterSize = r at split reach ⊢
  have which : x*2%word/c.clusterSize = 2*q := by
    rw [Nat.mod_eq_of_lt (by unfold word; omega),← split,show (c.clusterSize*q+r)*2 = c.clusterSize*(2*q)+2*r by ring,
      Nat.mul_add_div (by omega),Nat.div_eq_of_lt (by omega),Nat.add_zero]
  have start : c.fatStart/c.sectorsPerCluster = p := by rw [fat,Nat.mul_div_cancel_left _ positive]
  have early : p ≤ c.fatStart := by
    rw [fat]
    exact Nat.le_mul_of_pos_left p positive
  have near : q ≤ c.clusterSize*q := Nat.le_mul_of_pos_left q (by omega)
  have cluster : fatCluster c x = p+2*q := by
    rw [fatCluster,start,which]
    exact Nat.mod_eq_of_lt (by unfold word; omega)
  have place : (p+2*q)*c.sectorsPerCluster = c.fatStart+2*(c.sectorsPerCluster*q) := by rw [fat]; ring
  have whole : c.clusterSize*q = 512*(c.sectorsPerCluster*q) := by rw [size]; ring
  rw [cluster,place]
  refine ⟨by unfold word; omega,by omega⟩

theorem link_in_reach (volume : FatVolume c) (small : x < 65536) (reach : InReach c x) (memory : Bytes) :
    link {c with buffer := memory} x = fatEntry c x := by
  obtain ⟨room,place⟩ := fatCluster_in_reach volume small reach
  have size := clusterSize_sectors volume.sectors
  rw [InReach] at reach
  have byte : ∀ k < 2, fat16ReadCluster c (fatCluster c x) memory (2*(x%c.clusterSize)+k) = c.device.disk (c.fatStart*512+2*x+k) := by
    intro k less
    rw [readCluster_byte volume.sectors,if_pos (by omega),clusterByte_linear room (by omega),← place,Nat.add_assoc]
  show get16 (fat16ReadCluster {c with buffer := memory} (fatCluster c x) memory) (2*(x%c.clusterSize)) = _
  rw [readCluster_buffer,fatEntry,get16,get16,get8,get8,get8,get8,byte 1 (by decide)]
  have first := byte 0 (by decide)
  rw [Nat.add_zero,Nat.add_zero] at first
  rw [first]

theorem link_out_of_reach (volume : FatVolume c) (far : ¬ InReach c x) : link {c with buffer := blank} x = 0 := by
  have size := clusterSize_sectors volume.sectors
  rw [InReach] at far
  have byte : ∀ k, fat16ReadCluster c (fatCluster c x) blank (2*(x%c.clusterSize)+k) = 0#8 := by
    intro k
    rw [readCluster_byte volume.sectors,if_neg (by omega),blank]
  show get16 (fat16ReadCluster {c with buffer := blank} (fatCluster c x) blank) (2*(x%c.clusterSize)) = _
  have first := byte 0
  rw [Nat.add_zero] at first
  rw [readCluster_buffer,get16,get8,get8,byte 1,first]
  rfl

theorem linked_small (linked : Linked c x chain mark) : (2 ≤ x ∧ x ≤ 0xFFEF) ∧ ∀ y ∈ chain, y < 65536 := by
  induction linked with
  | last low high _ =>
    refine ⟨⟨low,high⟩,?_⟩
    intro y member
    rw [List.mem_singleton.mp member]
    omega
  | next low high _ ih =>
    refine ⟨⟨low,high⟩,?_⟩
    intro y member
    rcases List.mem_cons.mp member with rfl | deeper
    · omega
    · exact ih.2 y deeper

theorem linked_trail {next : Nat → Nat} (linked : Linked c x chain mark) (follows : ∀ y ∈ chain, next y = fatEntry c y) :
    trail next x chain.length = chain ∧ next^[chain.length] x = mark := by
  induction linked with
  | last _ _ _ => exact ⟨rfl,follows _ List.mem_cons_self⟩
  | next _ _ _ ih =>
    obtain ⟨passed,ends⟩ := ih (fun y member => follows y (List.mem_cons_of_mem _ member))
    have first := follows _ List.mem_cons_self
    rw [List.length_cons,trail_succ,Function.iterate_succ_apply,first]
    exact ⟨congrArg _ passed,ends⟩

theorem linked_ends {next : Nat → Nat} (linked : Linked c x chain mark) (follows : ∀ y ∈ chain, next y = fatEntry c y) (full : mark = chainEnd) :
    Ends next (· = chainEnd) (· = 0) x chain.length := by
  induction linked with
  | last _ _ _ =>
    have first := follows _ List.mem_cons_self
    exact ends_one.mpr ⟨first.trans full,by rw [first,full]; decide⟩
  | next _ _ rest ih =>
    have later := ih (fun y member => follows y (List.mem_cons_of_mem _ member)) full
    have first := follows _ List.mem_cons_self
    obtain ⟨⟨low,high⟩,_⟩ := linked_small rest
    refine (ends_succ later.some_).mpr ⟨⟨?_,?_⟩,by rw [first]; exact later⟩
    · rw [first,chainEnd]
      omega
    · rw [first]
      omega

theorem chain_followed_iff (volume : FatVolume c) (linked : Linked c cluster chain mark) :
    ChainFollowed c cluster chain ↔ (∀ x ∈ chain, InReach c x) ∧ mark = chainEnd := by
  have small := (linked_small linked).2
  have divides : c.clusterSize ≠ 0 := by
    have positive := volume.clusters
    rw [clusterSize_sectors volume.sectors]
    omega
  constructor
  · intro followed
    obtain ⟨after,ran⟩ := followed blank
    obtain ⟨_,k,_,ends,same,_⟩ := chain_cases ran
    have passed := List.append_cancel_right same
    have length : chain.length = k := by rw [passed,trail_length]
    -- Each cluster was left through a link that is not 0.
    have reach : ∀ x ∈ chain, InReach c x := by
      intro x member
      rw [passed] at member
      obtain ⟨j,below,rfl⟩ := List.mem_map.mp member
      by_contra far
      have below := List.mem_range.mp below
      refine ends.free (j+1) (Nat.succ_pos j) below ?_
      rw [Function.iterate_succ_apply']
      exact link_out_of_reach volume far
    refine ⟨reach,?_⟩
    obtain ⟨_,last⟩ := linked_trail linked (fun y member => link_in_reach volume (small y member) (reach y member) blank)
    rw [← last,length]
    exact ends.stops
  · rintro ⟨reach,full⟩ memory
    have follows : ∀ y ∈ chain, link {c with buffer := memory} y = fatEntry c y :=
      fun y member => link_in_reach volume (small y member) (reach y member) memory
    obtain ⟨last,ran⟩ := chain_of_ends (c := {c with buffer := memory}) divides (linked_ends linked follows full)
    rw [(linked_trail linked follows).1] at ran
    exact ⟨_,ran⟩

theorem smallContext_volume (disk memory : Bytes) : FatVolume (smallContext disk memory) :=
  ⟨rfl,show 0 < sectorsPerCluster (bootSector 1 1 2 512 32) by decide,
    show 1 = reservedSectors (bootSector 1 1 2 512 32) by decide,
    show sectorsPerCluster (bootSector 1 1 2 512 32) ∣ 1 by decide⟩

def twoClusters : Context := smallContext (put16 (put16 blank 516 3) 518 0xFFFF) blank

theorem two_clusters_followed : Linked twoClusters 2 [2,3] 0xFFFF ∧ ChainFollowed twoClusters 2 [2,3] := by
  have first : fatEntry twoClusters 2 = 3 := by decide
  have second : fatEntry twoClusters 3 = 0xFFFF := by decide
  have rest : Linked twoClusters 3 [3] 0xFFFF := second ▸ .last (by decide) (by decide) (by rw [second]; decide)
  have linked : Linked twoClusters 2 [2,3] 0xFFFF := .next (by decide) (by decide) (by rw [first]; exact rest)
  refine ⟨linked,(chain_followed_iff (smallContext_volume _ _) linked).mpr ⟨?_,rfl⟩⟩
  decide

theorem followed_single (followed : ChainFollowed c x [x]) : link {c with buffer := blank} x = chainEnd := by
  obtain ⟨after,ran⟩ := followed blank
  obtain ⟨_,k,_,ends,same,_⟩ := chain_cases ran
  have one : 1 = k := by simpa using congrArg List.length (List.append_cancel_right same)
  rw [← one] at ends
  exact ends.stops

-- A chain of one cluster with the end mark 0xFFF8, and one whose cluster is the
-- 256th entry of the FAT, behind a buffer of one sector.
theorem chains_lost : (Linked (smallContext (put16 blank 516 0xFFF8) blank) 2 [2] 0xFFF8 ∧
      ¬ ChainFollowed (smallContext (put16 blank 516 0xFFF8) blank) 2 [2]) ∧
    Linked (smallContext (put16 blank 1024 0xFFFF) blank) 256 [256] 0xFFFF ∧
      ¬ ChainFollowed (smallContext (put16 blank 1024 0xFFFF) blank) 256 [256] := by
  have short : fatEntry (smallContext (put16 blank 516 0xFFF8) blank) 2 = 0xFFF8 := by decide
  have far : fatEntry (smallContext (put16 blank 1024 0xFFFF) blank) 256 = 0xFFFF := by decide
  refine ⟨⟨short ▸ .last (by decide) (by decide) (by rw [short]; decide),?_⟩,
    far ▸ .last (by decide) (by decide) (by rw [far]; decide),?_⟩
  · intro followed
    exact absurd (followed_single followed) (by decide)
  · intro followed
    exact absurd (followed_single followed) (by decide)

end KaracaOS.Fat16Chains
