import KaracaOS.Fat16Chains
import KaracaOS.Fat16Paths

namespace KaracaOS.Fat16Files
open ByteMemory BlockDevice Fat16Volume Fat16Chains Fat16Paths PointerChains

def attribVolumeLabel : Byte := 0x08#8
def fileSize (e : DirEntry) : Nat := (e 31 ++ e 30 ++ e 29 ++ e 28).toNat

-- cluster_chain: what was written, and what lay on the stack behind it.
def chainAt (written : List Nat) (stack : Nat → Nat) (i : Nat) : Nat := written.getD i (stack i)

-- (cluster - 2) + context->data_area_start_cluster
def dataCluster (c : Context) (cluster : Nat) : Nat := (cluster+word-2+c.dataAreaStartCluster)%word

-- The caller's buffer from its first byte on, apart from context->buffer. The
-- elements of cluster_chain that were read are kept for statements and never used.
structure Delivery where
  context : Context
  buffer : Bytes
  reads : List Nat

-- One fat16_read_cluster with the kaos_memcpy behind it.
def deliver (clusterChain : Nat → Nat) (s : Delivery) (index at_ count : Nat) : Delivery :=
  let c := load s.context (dataCluster s.context (clusterChain index))
  ⟨c,blit s.buffer at_ c.buffer 0 count,s.reads++[index]⟩

-- for (i = 0; i < length; i += cluster_size)
def copyLoop (clusterChain : Nat → Nat) (clusterSize length : Nat) : Nat → Nat → Delivery → Option (Nat × Delivery)
  | 0,i,s => if length ≤ i then some (i,s) else none
  | fuel+1,i,s =>
    if length ≤ i then some (i,s)
    else copyLoop clusterChain clusterSize length fuel ((i+clusterSize)%word) (deliver clusterChain s (i/clusterSize) i clusterSize)

-- *out_len with the delivery. none: the chain does not end or leaves its array.
def fat16ReadFile (c : Context) (e : DirEntry) (buffer : Bytes) (len : Nat) (stack : Nat → Nat) :
    Option (Except SysRet (Nat × Delivery)) :=
  if e.attributes &&& (attribSubdir ||| attribVolumeLabel) ≠ 0#8 then some (.error .malformed)
  else
    let length := if len < fileSize e then len else fileSize e
    let outLen := if length < len then length else len
    if length = 0 then some (.ok (outLen,⟨c,buffer,[]⟩))
    else
      match fat16ReadClusterFatChain c (clusterOf e).toNat with
      | none => none
      | some (written,c) =>
        if clusterChainLength < written.length then none
        else
          let clusterChain := chainAt written stack
          (copyLoop clusterChain c.clusterSize length length 0 ⟨c,buffer,[]⟩).map fun (i,s) =>
            .ok (outLen,deliver clusterChain s (i/c.clusterSize+1) i (length%c.clusterSize))

def Regular (e : DirEntry) : Prop := e.attributes &&& (attribSubdir ||| attribVolumeLabel) = 0#8

-- Byte k of the file whose data clusters are those of the chain.
def fileByte (c : Context) (clusterChain : Nat → Nat) (k : Nat) : Byte :=
  clusterByte c (dataCluster c (clusterChain (k/c.clusterSize))) (k%c.clusterSize)

variable {c : Context} {e : DirEntry} {clusterChain : Nat → Nat} {buffer : Bytes} {s : Delivery} {length len : Nat}

-- The file in the caller's buffer as far as m rounds of the loop bring it.
structure Delivered (c : Context) (clusterChain : Nat → Nat) (buffer : Bytes) (m : Nat) (s : Delivery) : Prop where
  context : ∃ memory, s.context = {c with buffer := memory}
  bytes : ∀ k, s.buffer k = if k < m*c.clusterSize then fileByte c clusterChain k else buffer k
  reads : s.reads = List.range m

theorem deliver_byte (sectors : c.device.sectorSize = 512) (same : ∃ memory, s.context = {c with buffer := memory})
    (clusterChain : Nat → Nat) (index at_ : Nat) (few : count ≤ c.clusterSize) (k : Nat) :
    (deliver clusterChain s index at_ count).buffer k =
      if at_ ≤ k ∧ k < at_+count then clusterByte c (dataCluster c (clusterChain index)) (k-at_) else s.buffer k := by
  obtain ⟨memory,same⟩ := same
  rw [deliver]
  dsimp only
  by_cases inside : at_ ≤ k ∧ k < at_+count
  · rw [blit_inside inside.1 inside.2,if_pos inside,same,load_byte sectors _ _ (by omega),Nat.zero_add]
    rfl
  · rw [blit_outside (by omega),if_neg inside]

theorem Delivered.round (delivered : Delivered c clusterChain buffer m s) (sectors : c.device.sectorSize = 512) (positive : 0 < c.clusterSize) :
    Delivered c clusterChain buffer (m+1) (deliver clusterChain s (m*c.clusterSize/c.clusterSize) (m*c.clusterSize) c.clusterSize) := by
  rw [Nat.mul_div_cancel m positive]
  refine ⟨?_,?_,?_⟩
  · obtain ⟨memory,same⟩ := delivered.context
    exact ⟨_,by rw [deliver,same]; rfl⟩
  · intro k
    rw [deliver_byte sectors delivered.context _ _ _ (Nat.le_refl _),delivered.bytes,Nat.add_mul,Nat.one_mul]
    by_cases early : k < m*c.clusterSize
    · rw [if_neg (by omega),if_pos early,if_pos (by omega)]
    · by_cases here : k < m*c.clusterSize+c.clusterSize
      · have place : k = c.clusterSize*m+(k-m*c.clusterSize) := by rw [Nat.mul_comm]; omega
        have index : k/c.clusterSize = m := Nat.div_eq_of_lt_le (by omega) (by rw [Nat.add_mul]; omega)
        have offset : k%c.clusterSize = k-m*c.clusterSize := by
          rw [place,Nat.mul_add_mod,Nat.mod_eq_of_lt (by omega)]
          rw [Nat.mul_comm m]
          omega
        rw [if_pos ⟨by omega,here⟩,if_pos here,fileByte,index,offset]
      · rw [if_neg (by omega),if_neg early,if_neg here]
  · rw [deliver,delivered.reads,List.range_succ]

-- The loop ends behind the last cluster that the length begins.
theorem copyLoop_delivered (sectors : c.device.sectorSize = 512) (positive : 0 < c.clusterSize) (n : Nat)
    (before : ∀ m < n, m*c.clusterSize < length) (reached : length ≤ n*c.clusterSize) (small : n*c.clusterSize < word)
    (below : m ≤ n) (enough : n ≤ m+fuel) (delivered : Delivered c clusterChain buffer m s) :
    ∃ last, copyLoop clusterChain c.clusterSize length fuel (m*c.clusterSize) s = some (n*c.clusterSize,last) ∧
      Delivered c clusterChain buffer n last := by
  induction fuel generalizing m s with
  | zero =>
    cases (show m = n by omega)
    exact ⟨s,if_pos reached,delivered⟩
  | succ fuel ih =>
    by_cases done : m = n
    · subst done
      exact ⟨s,if_pos reached,delivered⟩
    · have more := before m (by omega)
      have next : (m*c.clusterSize+c.clusterSize)%word = (m+1)*c.clusterSize := by
        have bound := Nat.mul_le_mul_right c.clusterSize (show m+1 ≤ n by omega)
        rw [Nat.add_mul,Nat.one_mul] at bound ⊢
        exact Nat.mod_eq_of_lt (by omega)
      rw [copyLoop,if_neg (by omega),next]
      exact ih (by omega) (by omega) (delivered.round sectors positive)

-- The rounds of the loop: the clusters that the length begins.
def rounds (clusterSize length : Nat) : Nat := (length+clusterSize-1)/clusterSize

theorem rounds_reach (positive : 0 < clusterSize) (length : Nat) : length ≤ rounds clusterSize length*clusterSize := by
  have split := Nat.div_add_mod (length+clusterSize-1) clusterSize
  have below := Nat.mod_lt (length+clusterSize-1) positive
  rw [Nat.mul_comm] at split
  rw [rounds]
  omega

theorem rounds_before (less : m < rounds clusterSize length) : m*clusterSize < length := by
  have whole := Nat.div_mul_le_self (length+clusterSize-1) clusterSize
  have bound := Nat.mul_le_mul_right clusterSize (show m+1 ≤ (length+clusterSize-1)/clusterSize from less)
  have positive : clusterSize ≠ 0 := by
    intro zero
    rw [rounds,zero,Nat.div_zero] at less
    cases less
  rw [Nat.succ_mul] at bound
  omega

theorem rounds_le (enough : length ≤ n*clusterSize) : rounds clusterSize length ≤ n := by
  by_contra more
  exact absurd (rounds_before (Nat.lt_of_not_le more)) (Nat.not_lt.mpr enough)

-- What a call that comes back does: whole clusters first, and then the rest of the
-- length once more, from one element further on and to behind the clusters.
theorem readFile_delivers (sectors : c.device.sectorSize = 512) (regular : Regular e) (some_ : min len (fileSize e) ≠ 0)
    (filled : fat16ReadClusterFatChain c (clusterOf e).toNat = some (written,after)) (fits : written.length ≤ clusterChainLength)
    (small : rounds c.clusterSize (min len (fileSize e))*c.clusterSize < word) (buffer : Bytes) (stack : Nat → Nat) :
    let n := rounds c.clusterSize (min len (fileSize e))
    ∃ s, fat16ReadFile c e buffer len stack = some (.ok (min len (fileSize e),s)) ∧ s.reads = List.range n++[n+1] ∧
      ∀ k, s.buffer k =
        if k < n*c.clusterSize then fileByte c (chainAt written stack) k
        else if k < n*c.clusterSize+min len (fileSize e)%c.clusterSize then
          clusterByte c (dataCluster c (chainAt written stack (n+1))) (k-n*c.clusterSize)
        else buffer k := by
  intro n
  obtain ⟨divides,k,last,_,_,rfl⟩ := chain_cases filled
  have positive := Nat.pos_of_ne_zero divides
  have reach := rounds_reach positive (min len (fileSize e))
  have rest := Nat.mod_lt (min len (fileSize e)) positive
  have few : n ≤ min len (fileSize e) := by
    refine rounds_le ?_
    exact Nat.le_mul_of_pos_right _ positive
  have start : Delivered c (chainAt written stack) buffer 0 ⟨load c last,buffer,[]⟩ := ⟨⟨_,rfl⟩,fun k => by simp,rfl⟩
  obtain ⟨s,looped,delivered⟩ : ∃ s, copyLoop (chainAt written stack) c.clusterSize (min len (fileSize e)) (min len (fileSize e))
      (0*c.clusterSize) ⟨load c last,buffer,[]⟩ = some (n*c.clusterSize,s) ∧ Delivered c (chainAt written stack) buffer n s :=
    copyLoop_delivered sectors positive n (fun m less => rounds_before less) reach small (Nat.zero_le n) (by omega) start
  rw [Nat.zero_mul] at looped
  have least : (if len < fileSize e then len else fileSize e) = min len (fileSize e) := by
    split <;> omega
  have out : (if min len (fileSize e) < len then min len (fileSize e) else len) = min len (fileSize e) := by
    split <;> omega
  have index : n*c.clusterSize/c.clusterSize = n := Nat.mul_div_cancel n positive
  refine ⟨deliver (chainAt written stack) s (n+1) (n*c.clusterSize) (min len (fileSize e)%c.clusterSize),?_,?_,?_⟩
  · rw [fat16ReadFile,if_neg (fun special => special regular),least,filled]
    simp only [if_neg some_,out,if_neg (Nat.not_lt.mpr fits)]
    rw [show (load c last).clusterSize = c.clusterSize from rfl,looped,Option.map_some]
    dsimp only
    rw [index]
  · rw [deliver,delivered.reads]
  · intro k
    rw [deliver_byte sectors delivered.context _ _ _ (Nat.le_of_lt rest),delivered.bytes]
    by_cases whole : k < n*c.clusterSize
    · rw [if_neg (by omega),if_pos whole,if_pos whole]
    · by_cases more : k < n*c.clusterSize+min len (fileSize e)%c.clusterSize
      · rw [if_pos ⟨by omega,more⟩,if_neg whole,if_pos more]
      · rw [if_neg (by omega),if_neg whole,if_neg whole,if_neg more]

theorem readFile_empty (regular : Regular e) (none : min len (fileSize e) = 0) (buffer : Bytes) (stack : Nat → Nat) :
    fat16ReadFile c e buffer len stack = some (.ok (0,⟨c,buffer,[]⟩)) := by
  have least : (if len < fileSize e then len else fileSize e) = 0 := by
    split <;> omega
  have out : (if 0 < len then 0 else len) = 0 := by
    split <;> omega
  rw [fat16ReadFile,if_neg (fun special => special regular),least]
  simp only [if_true,out]

theorem chainAt_written (inside : i < clusters.length) (rest : List Nat) (stack : Nat → Nat) :
    chainAt (clusters++rest) stack i = clusters.getD i 0 := by
  rw [chainAt,List.getD_append _ _ _ _ inside,List.getD_eq_getElem _ _ inside,List.getD_eq_getElem _ _ inside]

theorem clusterSize_small (sectors : c.device.sectorSize = 512) : c.clusterSize ≤ 130560 := by
  have few := sectorsPerCluster_small c
  rw [clusterSize_sectors sectors]
  omega

theorem rounds_small (sectors : c.device.sectorSize = 512) (few : clusters ≤ 127) (enough : length ≤ clusters*c.clusterSize) :
    rounds c.clusterSize length*c.clusterSize < word := by
  have most := Nat.mul_le_mul (Nat.le_trans (rounds_le enough) few) (clusterSize_small sectors)
  unfold word
  omega

theorem file_contents (sectors : c.device.sectorSize = 512) (regular : Regular e)
    (filled : fat16ReadClusterFatChain c (clusterOf e).toNat = some (clusters++[chainEnd],after)) (few : clusters.length ≤ 120)
    (enough : min len (fileSize e) ≤ clusters.length*c.clusterSize) (buffer : Bytes) (stack : Nat → Nat) :
    ∃ s, fat16ReadFile c e buffer len stack = some (.ok (min len (fileSize e),s)) ∧ ∀ k < min len (fileSize e),
      s.buffer k = clusterByte c (dataCluster c (clusters.getD (k/c.clusterSize) 0)) (k%c.clusterSize) := by
  by_cases none : min len (fileSize e) = 0
  · refine ⟨⟨c,buffer,[]⟩,?_,?_⟩
    · rw [readFile_empty regular none,none]
    · intro k less
      omega
  · have positive := Nat.pos_of_ne_zero (chain_cases filled).1
    have fits : (clusters++[chainEnd]).length ≤ clusterChainLength := by
      rw [List.length_append,List.length_singleton,clusterChainLength]
      omega
    obtain ⟨s,ran,_,bytes⟩ := readFile_delivers sectors regular none filled fits (rounds_small sectors (by omega) enough) buffer stack
    refine ⟨s,ran,?_⟩
    intro k less
    have reach := rounds_reach positive (min len (fileSize e))
    have index : k/c.clusterSize < clusters.length := Nat.div_lt_of_lt_mul (by rw [Nat.mul_comm]; omega)
    rw [bytes,if_pos (by omega),fileByte,chainAt_written index]

-- Nothing at or behind the length asked for is changed, and no element of
-- cluster_chain is read but the clusters themselves.
def Respects (c : Context) (e : DirEntry) (len clusters : Nat) : Prop :=
  ∀ buffer stack, ∃ outLen s, fat16ReadFile c e buffer len stack = some (.ok (outLen,s)) ∧
    (∀ k, len ≤ k → s.buffer k = buffer k) ∧ ∀ i ∈ s.reads, i < clusters

theorem terminated_length (fits : clusters.length ≤ 127) : (clusters++[chainEnd]).length ≤ clusterChainLength := by
  rw [List.length_append,List.length_singleton,clusterChainLength]
  omega

theorem respects_room (sectors : c.device.sectorSize = 512) (regular : Regular e) (some_ : min len (fileSize e) ≠ 0)
    (filled : fat16ReadClusterFatChain c (clusterOf e).toNat = some (written,after)) (fits : written.length ≤ clusterChainLength)
    (small : rounds c.clusterSize (min len (fileSize e))*c.clusterSize < word) (respects : Respects c e len clusters) :
    rounds c.clusterSize (min len (fileSize e))*c.clusterSize+min len (fileSize e)%c.clusterSize ≤ len := by
  have delivers := readFile_delivers sectors regular some_ filled fits small
  by_contra beyond
  obtain ⟨_,s,ran,kept,_⟩ := respects blank (fun _ => 0)
  obtain ⟨_,s',ran',kept',_⟩ := respects (fun _ => 1#8) (fun _ => 0)
  obtain ⟨t,again,_,bytes⟩ := delivers blank (fun _ => 0)
  obtain ⟨t',again',_,bytes'⟩ := delivers (fun _ => 1#8) (fun _ => 0)
  rw [ran] at again
  rw [ran'] at again'
  cases Option.some.inj again
  cases Option.some.inj again'
  have first := (bytes len).symm.trans (kept len (Nat.le_refl _))
  have second := (bytes' len).symm.trans (kept' len (Nat.le_refl _))
  have same : blank len = (fun _ => 1#8 : Bytes) len := by
    rw [← first,← second]
    split
    · rfl
    · rw [if_pos (by omega),if_pos (by omega)]
  cases same

theorem respects_fits (regular : Regular e) (some_ : min len (fileSize e) ≠ 0)
    (filled : fat16ReadClusterFatChain c (clusterOf e).toNat = some (clusters++[chainEnd],after)) (respects : Respects c e len n) :
    clusters.length ≤ 127 := by
  by_contra many
  obtain ⟨_,s,ran,_⟩ := respects blank (fun _ => 0)
  have leaves : clusterChainLength < (clusters++[chainEnd]).length := by
    rw [List.length_append,List.length_singleton,clusterChainLength]
    omega
  rw [fat16ReadFile,if_neg (fun special => special regular),filled] at ran
  have least : (if len < fileSize e then len else fileSize e) ≠ 0 := by
    split <;> omega
  simp only [if_neg least,if_pos leaves] at ran
  cases ran

theorem buffer_respected_iff (sectors : c.device.sectorSize = 512) (regular : Regular e)
    (filled : fat16ReadClusterFatChain c (clusterOf e).toNat = some (clusters++[chainEnd],after))
    (long : fileSize e ≤ clusters.length*c.clusterSize) :
    Respects c e len clusters.length ↔ min len (fileSize e) = 0 ∨ clusters.length ≤ 127 ∧
      rounds c.clusterSize (min len (fileSize e))+1 < clusters.length ∧
      rounds c.clusterSize (min len (fileSize e))*c.clusterSize+min len (fileSize e)%c.clusterSize ≤ len := by
  have few : ∀ fits : clusters.length ≤ 127, rounds c.clusterSize (min len (fileSize e))*c.clusterSize < word := fun fits =>
    rounds_small sectors fits (Nat.le_trans (Nat.min_le_right _ _) long)
  by_cases none : min len (fileSize e) = 0
  · refine iff_of_true ?_ (.inl none)
    intro buffer stack
    exact ⟨0,_,readFile_empty regular none buffer stack,fun _ _ => rfl,fun i member => by cases member⟩
  · constructor
    · intro respects
      have fits := respects_fits regular none filled respects
      refine .inr ⟨fits,?_,respects_room sectors regular none filled (terminated_length fits) (few fits) respects⟩
      obtain ⟨_,s,ran,_,elements⟩ := respects blank (fun _ => 0)
      obtain ⟨t,again,reads,_⟩ := readFile_delivers sectors regular none filled (terminated_length fits) (few fits) blank (fun _ => 0)
      rw [ran] at again
      cases Option.some.inj again
      exact elements _ (by rw [reads]; exact List.mem_append_right _ (List.mem_singleton_self _))
    · rintro (empty | ⟨fits,more,room⟩) buffer stack
      · exact absurd empty none
      · obtain ⟨s,ran,reads,bytes⟩ := readFile_delivers sectors regular none filled (terminated_length fits) (few fits) buffer stack
        refine ⟨_,s,ran,?_,?_⟩
        · intro k high
          rw [bytes,if_neg (by omega),if_neg (by omega)]
        · intro i member
          rw [reads] at member
          rcases List.mem_append.mp member with loop | tail
          · have below := List.mem_range.mp loop
            omega
          · rw [List.mem_singleton.mp tail]
            exact more

-- A file that starts in cluster 2, which is its only one.
def fileEntry (size : Nat) : DirEntry := fun i =>
  if i = 26 then 2#8 else if i = 28 then BitVec.ofNat 8 size else if i = 29 then BitVec.ofNat 8 (size/256) else 0#8

theorem fileEntry_cluster (size : Nat) : (clusterOf (fileEntry size)).toNat = 2 := by simp [clusterOf,fileEntry]

def oneCluster : Context := smallContext (put16 BlockDevice.blank 516 0xFFFF) BlockDevice.blank

theorem oneCluster_filled (size : Nat) :
    ∃ after, fat16ReadClusterFatChain oneCluster (clusterOf (fileEntry size)).toNat = some ([2]++[chainEnd],after) := by
  have walked : walk (link oneCluster) (· = chainEnd) (· = 0) 1 2 = some [2] := by decide
  rw [fileEntry_cluster]
  exact chain_of_walk (by decide) walked

-- A file over two clusters, marked in both.
def twoClusters : Context :=
  smallContext (put8 (put8 (put16 (put16 BlockDevice.blank 516 3) 518 0xFFFF) (97*512+1) 0x41) (98*512+87) 0x42) BlockDevice.blank

theorem two_clusters_read : ∃ s, fat16ReadFile twoClusters (fileEntry 600) BlockDevice.blank 700 (fun _ => 0) = some (.ok (600,s)) ∧
    s.buffer 1 = 0x41 ∧ s.buffer 599 = 0x42 := by
  have walked : walk (link twoClusters) (· = chainEnd) (· = 0) 2 2 = some [2,3] := by decide
  obtain ⟨after,filled⟩ := chain_of_walk (by decide) walked
  rw [← fileEntry_cluster 600] at filled
  obtain ⟨s,ran,bytes⟩ := file_contents rfl (show _ = _ by decide) filled (by decide) (show min 700 (fileSize (fileEntry 600)) ≤ _ by decide)
    BlockDevice.blank (fun _ => 0)
  have size : min 700 (fileSize (fileEntry 600)) = 600 := by decide
  rw [size] at ran bytes
  exact ⟨s,ran,(bytes 1 (by decide)).trans (by decide),(bytes 599 (by decide)).trans (by decide)⟩

theorem five_bytes_overrun : fileSize (fileEntry 5) ≤ 1*oneCluster.clusterSize ∧ ¬ Respects oneCluster (fileEntry 5) 5 1 := by
  refine ⟨by decide,?_⟩
  intro respects
  obtain ⟨after,filled⟩ := oneCluster_filled 5
  obtain ⟨_,s,ran,_,elements⟩ := respects BlockDevice.blank (fun _ => 0)
  obtain ⟨t,again,reads,_⟩ : ∃ t, fat16ReadFile oneCluster (fileEntry 5) BlockDevice.blank 5 (fun _ => 0) =
      some (.ok (min 5 (fileSize (fileEntry 5)),t)) ∧ t.reads = _ ∧ _ :=
    readFile_delivers rfl (show _ = _ by decide) (by decide) filled (by decide) (by decide) BlockDevice.blank (fun _ => 0)
  rw [ran] at again
  cases Option.some.inj again
  exact absurd (elements 2 (by rw [reads]; decide)) (by decide)

-- One full cluster of a chain of three.
def threeClusters : Context :=
  smallContext (put16 (put16 (put16 BlockDevice.blank 516 3) 518 4) 520 0xFFFF) BlockDevice.blank

theorem full_cluster_respected : Respects threeClusters (fileEntry 512) 512 3 := by
  have walked : walk (link threeClusters) (· = chainEnd) (· = 0) 3 2 = some [2,3,4] := by decide
  obtain ⟨after,filled⟩ := chain_of_walk (by decide) walked
  rw [← fileEntry_cluster 512] at filled
  exact (buffer_respected_iff rfl (show _ = _ by decide) filled (by decide)).mpr (.inr (by decide))

end KaracaOS.Fat16Files
