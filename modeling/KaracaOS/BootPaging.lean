import KaracaOS.Paging

namespace KaracaOS.BootPaging
open Paging

-- for (j = 0; j < count; j++) with entries[base+j] rewritten from its old value.
def forEach (base : Nat) (rewrite : Nat → BitVec 32 → BitVec 32) : Nat → Nat → (Nat → BitVec 32) → Nat → BitVec 32
  | 0,_,entries => entries
  | count+1,j,entries =>
    forEach base rewrite count (j+1) (Function.update entries (base+j) (rewrite j (entries (base+j))))

-- The same over i and j, for the entries i*1024+j.
def forTables (rewrite : Nat → Nat → BitVec 32 → BitVec 32) : Nat → Nat → (Nat → BitVec 32) → Nat → BitVec 32
  | 0,_,entries => entries
  | count+1,i,entries => forTables rewrite count (i+1) (forEach (i*1024) (rewrite i) 1024 0 entries)

def setPresent (entries : Nat → BitVec 32) (i : Nat) : Nat → BitVec 32 := Function.update entries i (entries i ||| 1#32)

def mapKernel (entries : Nat → BitVec 32) (table base : Nat) : Nat → BitVec 32 :=
  forEach (table*1024) (fun i value => (value &&& 0xFFF#32) ||| (1#32 ||| BitVec.ofNat 32 (base+i*0x1000))) 1024 0 entries

-- arch_paging_init_lower loop by loop. The products wrap at 32 bits.
def archPagingInitLower (t : Tables) : Tables :=
  let pageDir := forEach 0
    (fun i _ => 1#32 ||| 2#32 ||| (BitVec.ofNat 32 (pageTablesStart+i*0x1000) >>> 12) <<< 12) 1024 0 t.pageDir
  let initialAddress := 0
  let pageTables := forTables
    (fun i j _ => 2#32 ||| (BitVec.ofNat 32 (initialAddress+(i*(0x1000*1024)+j*0x1000)) >>> 12) <<< 12) 1024 0 t.pageTables
  let pageTables := forTables (fun _ _ value => value ||| 1#32) 10 0 pageTables
  let pageDir := setPresent (setPresent (setPresent (setPresent pageDir 768) 769) 770) 771
  let pageTables := mapKernel pageTables 768 0x000000
  let pageTables := mapKernel pageTables 769 0x400000
  let pageTables := mapKernel pageTables 770 0x800000
  let pageTables := mapKernel pageTables 771 0xC00000
  ⟨pageDir,pageTables⟩

theorem forEach_sweep (base : Nat) (rewrite : Nat → BitVec 32 → BitVec 32) (count j : Nat) (entries : Nat → BitVec 32) :
    forEach base rewrite count j entries = sweep entries (base+j) (base+j+count) (fun n => rewrite (n-base)) := by
  induction count generalizing j entries with
  | zero =>
    funext n
    have none_ : ¬ (base+j ≤ n ∧ n < base+j+0) := by omega
    simp only [forEach,sweep,none_,if_false]
  | succ count ih =>
    funext n
    rw [forEach,ih]
    simp only [sweep]
    by_cases here : n = base+j
    · subst here
      simp
    · have same : (base+(j+1) ≤ n ∧ n < base+(j+1)+count) ↔ (base+j ≤ n ∧ n < base+j+(count+1)) := by omega
      simp only [same,Function.update_of_ne here]

theorem forTables_sweep (rewrite : Nat → Nat → BitVec 32 → BitVec 32) (count i : Nat) (entries : Nat → BitVec 32) :
    forTables rewrite count i entries = sweep entries (i*1024) ((i+count)*1024) (fun n => rewrite (n/1024) (n%1024)) := by
  induction count generalizing i entries with
  | zero =>
    funext n
    have none_ : ¬ (i*1024 ≤ n ∧ n < (i+0)*1024) := by omega
    simp only [forTables,sweep,none_,if_false]
  | succ count ih =>
    funext n
    rw [forTables,ih,forEach_sweep,Nat.add_zero]
    simp only [sweep]
    by_cases here : i*1024 ≤ n ∧ n < i*1024+1024
    · have table : n/1024 = i := by omega
      have entry : n-i*1024 = n%1024 := by omega
      have later : ¬ ((i+1)*1024 ≤ n ∧ n < (i+1+count)*1024) := by omega
      have whole : i*1024 ≤ n ∧ n < (i+(count+1))*1024 := by omega
      rw [if_neg later,if_pos here,if_pos whole,table,entry]
    · have same : ((i+1)*1024 ≤ n ∧ n < (i+1+count)*1024) ↔ (i*1024 ≤ n ∧ n < (i+(count+1))*1024) := by omega
      simp only [if_neg here,same]

theorem mapKernel_closed (entries : Nat → BitVec 32) (table base : Nat) : mapKernel entries table base = kernelTable entries table base := by
  rw [mapKernel,kernelTable,forEach_sweep,Nat.add_zero]

theorem setPresent_sweep (entries : Nat → BitVec 32) :
    setPresent (setPresent (setPresent (setPresent entries 768) 769) 770) 771 = sweep entries 768 772 (fun _ value => value ||| 1#32) := by
  have four := forEach_sweep 768 (fun _ value => value ||| 1#32) 4 0 entries
  simp only [forEach,Nat.reduceAdd] at four
  simp only [setPresent]
  exact four

-- The loops come to the closed form that the rest of the memory manager starts from.
theorem archPagingInitLower_closed (t : Tables) : archPagingInitLower t = Paging.archPagingInitLower t := by
  have identity : ∀ n, n/1024*(0x1000*1024)+n%1024*0x1000 = n*0x1000 := by
    intro n
    omega
  simp only [archPagingInitLower,Paging.archPagingInitLower,setPresent_sweep,mapKernel_closed,forTables_sweep,forEach_sweep,
    Nat.zero_mul,Nat.zero_add,Nat.add_zero,Nat.sub_zero,identity]

-- What the processor does with an address, cr3 holding page_directory_start. The
-- words outside the page tables are whatever memory holds.
def entryAt (t : Tables) (memory : Nat → BitVec 32) (address : Nat) : BitVec 32 :=
  if pageTablesStart ≤ address ∧ address < pageTablesStart+1024*1024*4 then t.pageTables ((address-pageTablesStart)/4)
  else memory address

def translate (t : Tables) (memory : Nat → BitVec 32) (virtAddr : Nat) : Option Nat :=
  let directoryEntry := t.pageDir (virtAddr/0x400000)
  if directoryEntry.getLsbD 0 then
    let entry := entryAt t memory ((directoryEntry &&& ~~~0xFFF#32).toNat+virtAddr/4096%1024*4)
    if entry.getLsbD 0 then some ((entry &&& ~~~0xFFF#32).toNat+virtAddr%4096) else none
  else none

structure Maps (entry : BitVec 32) (address : Nat) : Prop where
  present : entry.getLsbD 0 = true
  frame : (entry &&& ~~~0xFFF#32).toNat = address

variable {table base address n : Nat}

theorem align_whole (aligned : address%4096 = 0) : (BitVec.ofNat 32 address >>> 12) <<< 12 = BitVec.ofNat 32 address := by
  apply BitVec.eq_of_toNat_eq
  rw [← align_down,align_toNat,BitVec.toNat_ofNat]
  omega

theorem maps_flags {flags : BitVec 32} (low : flags &&& ~~~0xFFF#32 = 0#32) (present : flags.getLsbD 0 = true)
    (aligned : address%4096 = 0) (small : address < word) : Maps (flags ||| BitVec.ofNat 32 address) address := by
  refine ⟨by simp [present],?_⟩
  rw [BitVec.and_or_distrib_right,low,BitVec.zero_or,align_toNat,BitVec.toNat_ofNat]
  unfold word at small
  omega

theorem low_flags (value : BitVec 32) : ((value &&& 0xFFF#32) ||| 1#32) &&& ~~~0xFFF#32 = 0#32 := by
  apply BitVec.eq_of_getLsbD_eq
  intro i bound
  interval_cases i <;> simp

theorem or_present (flags x : BitVec 32) : flags ||| x ||| 1#32 = flags ||| 1#32 ||| x := by
  rw [BitVec.or_assoc,BitVec.or_comm x,← BitVec.or_assoc]

theorem directory_entry (t : Tables) (inside : n < 1024) :
    Maps ((Paging.archPagingInitLower t).pageDir n) (pageTablesStart+n*0x1000) := by
  have aligned : (pageTablesStart+n*0x1000)%4096 = 0 := by
    unfold pageTablesStart pageDirectoryStart
    omega
  have small : pageTablesStart+n*0x1000 < word := by
    unfold pageTablesStart pageDirectoryStart word
    omega
  have entry : Maps (1#32 ||| 2#32 ||| BitVec.ofNat 32 (pageTablesStart+n*0x1000)) (pageTablesStart+n*0x1000) :=
    maps_flags (by decide) (by decide) aligned small
  have again : Maps (1#32 ||| 2#32 ||| BitVec.ofNat 32 (pageTablesStart+n*0x1000) ||| 1#32) (pageTablesStart+n*0x1000) := by
    rw [or_present]
    exact maps_flags (by decide) (by decide) aligned small
  simp only [Paging.archPagingInitLower,sweep,Nat.zero_le,true_and,inside,if_true,align_whole aligned]
  split
  · exact again
  · exact entry

theorem kernelTable_inside (entries : Nat → BitVec 32) (aligned : base%4096 = 0) (low : table*1024 ≤ n) (high : n < table*1024+1024)
    (small : base+0x400000 ≤ word) : Maps (kernelTable entries table base n) (base+(n-table*1024)*0x1000) := by
  simp only [kernelTable,sweep,low,high,and_self,if_true]
  rw [← BitVec.or_assoc]
  exact maps_flags (low_flags _) (by simp) (by omega) (by omega)

theorem kernelTable_outside (entries : Nat → BitVec 32) (base : Nat) (out : n < table*1024 ∨ table*1024+1024 ≤ n) :
    kernelTable entries table base n = entries n := by
  have away : ¬ (table*1024 ≤ n ∧ n < table*1024+1024) := by omega
  simp only [kernelTable,sweep,away,if_false]

theorem kernel_entry (t : Tables) (low : 768*1024 ≤ n) (high : n < 772*1024) :
    Maps ((Paging.archPagingInitLower t).pageTables n) ((n-768*1024)*0x1000) := by
  unfold Paging.archPagingInitLower
  dsimp only
  by_cases fourth : 771*1024 ≤ n
  · rw [show (n-768*1024)*0x1000 = 0xC00000+(n-771*1024)*0x1000 by omega]
    exact kernelTable_inside _ (by decide) fourth (by omega) (by decide)
  rw [kernelTable_outside _ _ (by omega)]
  by_cases third : 770*1024 ≤ n
  · rw [show (n-768*1024)*0x1000 = 0x800000+(n-770*1024)*0x1000 by omega]
    exact kernelTable_inside _ (by decide) third (by omega) (by decide)
  rw [kernelTable_outside _ _ (by omega)]
  by_cases second : 769*1024 ≤ n
  · rw [show (n-768*1024)*0x1000 = 0x400000+(n-769*1024)*0x1000 by omega]
    exact kernelTable_inside _ (by decide) second (by omega) (by decide)
  rw [kernelTable_outside _ _ (by omega),← Nat.zero_add ((n-768*1024)*0x1000)]
  exact kernelTable_inside _ (by decide) low (by omega) (by decide)

theorem other_entry (t : Tables) (inside : n < 1024*1024) (out : n < 768*1024 ∨ 772*1024 ≤ n) :
    (Paging.archPagingInitLower t).pageTables n =
      if n < 10*1024 then 2#32 ||| BitVec.ofNat 32 (n*0x1000) ||| 1#32 else 2#32 ||| BitVec.ofNat 32 (n*0x1000) := by
  unfold Paging.archPagingInitLower
  dsimp only
  rw [kernelTable_outside _ _ (by omega),kernelTable_outside _ _ (by omega),kernelTable_outside _ _ (by omega),
    kernelTable_outside _ _ (by omega)]
  simp only [sweep,Nat.zero_le,true_and,inside,if_true,align_whole (Nat.mul_mod_left n 0x1000)]

theorem lower_entry (t : Tables) (low : n < 10*1024) : Maps ((Paging.archPagingInitLower t).pageTables n) (n*0x1000) := by
  rw [other_entry t (by omega) (by omega),if_pos low,or_present]
  exact maps_flags (by decide) (by decide) (by omega) (by unfold word; omega)

theorem absent_entry (t : Tables) (inside : n < 1024*1024) (high : 10*1024 ≤ n) (out : n < 768*1024 ∨ 772*1024 ≤ n) :
    ((Paging.archPagingInitLower t).pageTables n).getLsbD 0 = false := by
  rw [other_entry t inside out,if_neg (by omega),← align_whole (Nat.mul_mod_left n 0x1000)]
  simp

theorem translate_entry (t : Tables) (memory : Nat → BitVec 32) (small : virtAddr < word) :
    translate (Paging.archPagingInitLower t) memory virtAddr =
      let entry := (Paging.archPagingInitLower t).pageTables (virtAddr/4096)
      if entry.getLsbD 0 then some ((entry &&& ~~~0xFFF#32).toNat+virtAddr%4096) else none := by
  unfold word at small
  obtain ⟨present,frame⟩ := directory_entry t (show virtAddr/0x400000 < 1024 by omega)
  have place : entryAt (Paging.archPagingInitLower t) memory
      (pageTablesStart+virtAddr/0x400000*0x1000+virtAddr/4096%1024*4) = (Paging.archPagingInitLower t).pageTables (virtAddr/4096) := by
    have index : (pageTablesStart+virtAddr/0x400000*0x1000+virtAddr/4096%1024*4-pageTablesStart)/4 = virtAddr/4096 := by omega
    rw [entryAt,if_pos (by omega),index]
  simp only [translate,present,frame,if_true,place]

theorem boot_tables_translate (t : Tables) (memory : Nat → BitVec 32) (small : virtAddr < word) :
    translate (archPagingInitLower t) memory virtAddr =
      if virtAddr < 40*1024*1024 then some virtAddr
      else if 0xC0000000 ≤ virtAddr ∧ virtAddr < 0xC1000000 then some (virtAddr-0xC0000000)
      else none := by
  rw [archPagingInitLower_closed,translate_entry t memory small]
  unfold word at small
  dsimp only
  by_cases lower : virtAddr < 40*1024*1024
  · obtain ⟨present,frame⟩ := lower_entry t (show virtAddr/4096 < 10*1024 by omega)
    rw [if_pos lower,present,if_pos rfl,frame]
    exact congrArg some (by omega)
  · rw [if_neg lower]
    by_cases kernel : 0xC0000000 ≤ virtAddr ∧ virtAddr < 0xC1000000
    · obtain ⟨present,frame⟩ := kernel_entry t (show 768*1024 ≤ virtAddr/4096 by omega) (show virtAddr/4096 < 772*1024 by omega)
      rw [if_pos kernel,present,if_pos rfl,frame]
      exact congrArg some (by omega)
    · have absent := absent_entry t (show virtAddr/4096 < 1024*1024 by omega) (by omega)
        (show virtAddr/4096 < 768*1024 ∨ 772*1024 ≤ virtAddr/4096 by omega)
      rw [if_neg kernel,absent]
      simp

-- The first instruction of .text, linked at 10 MiB above 0xC0000000.
theorem kernel_text_translates :
    translate (archPagingInitLower ⟨fun _ => 0#32,fun _ => 0#32⟩) (fun _ => 0#32) 0xC0A00000 = some 0xA00000 :=
  boot_tables_translate _ _ (by decide)

end KaracaOS.BootPaging
