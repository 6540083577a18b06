import KaracaOS.ByteMemory
import KaracaOS.SysDefs

namespace KaracaOS.Ext2Records
open ByteMemory

-- ext2_directory_element_t. The two pointers are offsets from the start of the
-- buffer that is walked.
structure DirectoryElement where
  inode : Nat
  recLen : Nat
  nameLen : Nat
  fileType : Nat
  name : Nat
  bufferPos : Nat

def elementAt (buffer : Bytes) (pos : Nat) : DirectoryElement :=
  {inode := get32 buffer pos,recLen := get16 buffer (pos+4),nameLen := get8 buffer (pos+6),
    fileType := get8 buffer (pos+7),name := pos+8,bufferPos := pos}

def ext2InitDirWalk (buffer : Bytes) : DirectoryElement := elementAt buffer 0
def ext2DirWalkNext (buffer : Bytes) (element : DirectoryElement) : DirectoryElement :=
  elementAt buffer ((element.bufferPos+element.recLen)%word)

def elementName (buffer : Bytes) (element : DirectoryElement) : List Byte :=
  (List.range element.nameLen).map (fun i => buffer (element.name+i))

-- while (element.inode != 0) ext2_dir_walk_next(mnt,&element), with the elements
-- it passes. There are 2^32 positions, so a walk that takes more steps than that
-- has come back to one of them and never ends: none.
def dirWalk (buffer : Bytes) : Nat → DirectoryElement → Option (List DirectoryElement × DirectoryElement)
  | 0,_ => none
  | fuel+1,element =>
    if element.inode = 0 then some ([],element)
    else (dirWalk buffer fuel (ext2DirWalkNext buffer element)).map (fun rest => (element::rest.1,rest.2))

def walkDirectory (buffer : Bytes) : Option (List DirectoryElement × DirectoryElement) :=
  dirWalk buffer word (ext2InitDirWalk buffer)

def nameLenWithPadding (nameLen : Nat) : Nat := nameLen+(4-nameLen%4)%4
def recordLength (nameLen : Nat) : Nat := 8+nameLenWithPadding nameLen

-- The body of ext2_add_link between its two block transfers: a record at pos and
-- a terminator behind it. The memset clears one to four bytes; with a length
-- divisible by four they belong to the terminator, which is written afterwards.
def putHeader (buffer : Bytes) (pos inode recLen nameLen type : Nat) : Bytes :=
  put8 (put8 (put16 (put32 buffer pos inode) (pos+4) recLen) (pos+6) nameLen) (pos+7) type

def putRecord (buffer : Bytes) (pos inode : Nat) (name : Bytes) (nameLen type : Nat) : Bytes :=
  let recLen := recordLength nameLen
  let buffer := putHeader buffer pos inode recLen nameLen type
  let buffer := blit buffer (pos+8) name 0 nameLen
  let buffer := fill buffer (pos+8+nameLen) (pos+8+nameLen+(4-nameLen%4)) 0#8
  let next := pos+recLen
  putHeader buffer next 0 (1024+word-next) 0 0

-- What a directory is for: a list of links, one record each.
structure Link where
  inode : Nat
  type : Byte
  name : List Byte
  short : name.length ≤ 255

def Link.size (link : Link) : Nat := recordLength link.name.length
def Link.bytes (link : Link) : Bytes := fun i => link.name.getD i 0#8

def totalSize (links : List Link) : Nat := (links.map Link.size).sum

structure Record (buffer : Bytes) (pos : Nat) (link : Link) : Prop where
  inode : get32 buffer pos = link.inode
  recLen : get16 buffer (pos+4) = link.size
  nameLen : get8 buffer (pos+6) = link.name.length
  fileType : get8 buffer (pos+7) = link.type.toNat
  name : ∀ i < link.name.length, buffer (pos+8+i) = link.bytes i

def Listed (buffer : Bytes) : Nat → List Link → Prop
  | _,[] => True
  | pos,link::rest => Record buffer pos link ∧ Listed buffer (pos+link.size) rest

variable {buffer left right : Bytes} {link : Link} {links : List Link}

theorem Link.size_bounds (link : Link) : 8+link.name.length ≤ link.size ∧ link.size ≤ 264 := by
  have short := link.short
  unfold Link.size recordLength nameLenWithPadding
  omega

theorem totalSize_cons (link : Link) (links : List Link) : totalSize (link::links) = link.size+totalSize links := by
  simp [totalSize]
theorem totalSize_append (links : List Link) (link : Link) : totalSize (links++[link]) = totalSize links+link.size := by
  simp [totalSize]

theorem length_totalSize (links : List Link) : links.length ≤ totalSize links := by
  induction links with
  | nil => exact Nat.zero_le _
  | cons link rest ih =>
      have bounds := link.size_bounds
      rw [totalSize_cons,List.length_cons]
      omega

theorem header_get (buffer : Bytes) (pos inode recLen nameLen type : Nat) :
    get32 (putHeader buffer pos inode recLen nameLen type) pos = inode%word ∧
    get16 (putHeader buffer pos inode recLen nameLen type) (pos+4) = recLen%65536 ∧
    get8 (putHeader buffer pos inode recLen nameLen type) (pos+6) = nameLen%256 ∧
    get8 (putHeader buffer pos inode recLen nameLen type) (pos+7) = type%256 := by
  unfold putHeader
  refine ⟨?_,?_,?_,get8_put8 _ _ _⟩
  · rw [get32_agree (agree_put8 (by omega)),get32_agree (agree_put8 (by omega)),get32_agree (agree_put16 (by omega)),get32_put32]
    rfl
  · rw [get16_agree (agree_put8 (by omega)),get16_agree (agree_put8 (by omega)),get16_put16]
  · rw [get8_agree (agree_put8 (by omega)),get8_put8]

theorem agree_header (out : pos+8 ≤ first ∨ first+count ≤ pos) :
    Agree (putHeader buffer pos inode recLen nameLen type) buffer first count := by
  unfold putHeader
  exact (agree_put8 (by omega)).trans ((agree_put8 (by omega)).trans ((agree_put16 (by omega)).trans (agree_put32 (by omega))))

theorem Record.agree (record : Record left pos link) (agree : Agree left right pos link.size) : Record right pos link := by
  have bounds := link.size_bounds
  refine ⟨?_,?_,?_,?_,?_⟩
  · rw [← record.inode,get32_agree (agree.narrow (by omega) (by omega))]
  · rw [← record.recLen,get16_agree (agree.narrow (by omega) (by omega))]
  · rw [← record.nameLen,get8_agree (agree.narrow (by omega) (by omega))]
  · rw [← record.fileType,get8_agree (agree.narrow (by omega) (by omega))]
  · intro i inside
    rw [← agree (pos+8+i) (by omega) (by omega)]
    exact record.name i inside

theorem Listed.agree (listed : Listed left pos links) (agree : Agree left right pos (totalSize links)) :
    Listed right pos links := by
  induction links generalizing pos with
  | nil => trivial
  | cons link rest ih =>
      obtain ⟨record,tail⟩ := listed
      rw [totalSize_cons] at agree
      exact ⟨record.agree (agree.narrow (Nat.le_refl _) (by omega)),ih tail (agree.narrow (by omega) (by omega))⟩

theorem Listed.append (listed : Listed buffer pos links) (record : Record buffer (pos+totalSize links) link) :
    Listed buffer pos (links++[link]) := by
  induction links generalizing pos with
  | nil => exact ⟨record,trivial⟩
  | cons head rest ih =>
      obtain ⟨first,tail⟩ := listed
      rw [totalSize_cons,← Nat.add_assoc] at record
      exact ⟨first,ih tail record⟩

-- The two records that ext2_add_link puts into the buffer.
structure PutRecord (buffer next : Bytes) (pos : Nat) (link : Link) : Prop where
  before : Agree next buffer 0 pos
  record : Record next pos link
  inode : get32 next (pos+link.size) = 0
  recLen : get16 next (pos+link.size+4) = 1024-(pos+link.size)

theorem putRecord_record (buffer : Bytes) (pos : Nat) (small : link.inode < word) :
    let next := putRecord buffer pos link.inode link.bytes link.name.length link.type.toNat
    Agree next buffer 0 pos ∧ Record next pos link ∧ get32 next (pos+link.size) = 0 ∧
      get16 next (pos+link.size+4) = (1024+word-(pos+link.size))%65536 := by
  have bounds := link.size_bounds
  have type := link.type.isLt
  have short := link.short
  let header := putHeader buffer pos link.inode link.size link.name.length link.type.toNat
  let named := blit header (pos+8) link.bytes 0 link.name.length
  let padded := fill named (pos+8+link.name.length) (pos+8+link.name.length+(4-link.name.length%4)) 0#8
  -- Up to the end of the name nothing behind the header changes it.
  have kept : ∀ first count, first+count ≤ pos+8 →
      Agree (putHeader padded (pos+link.size) 0 (1024+word-(pos+link.size)) 0 0) header first count := by
    intro first count below
    exact (agree_header (by omega)).trans ((agree_fill (by omega)).trans (agree_blit (by omega)))
  obtain ⟨inode,recLen,nameLen,fileType⟩ := header_get buffer pos link.inode link.size link.name.length link.type.toNat
  obtain ⟨ended,rest,_⟩ := header_get padded (pos+link.size) 0 (1024+word-(pos+link.size)) 0 0
  refine ⟨(kept 0 pos (by omega)).trans (agree_header (by omega)),⟨?_,?_,?_,?_,?_⟩,ended,rest⟩
  · exact (get32_agree (kept _ _ (by omega))).trans (inode.trans (Nat.mod_eq_of_lt small))
  · exact (get16_agree (kept _ _ (by omega))).trans (recLen.trans (Nat.mod_eq_of_lt (by omega)))
  · exact (get8_agree (kept _ _ (by omega))).trans (nameLen.trans (Nat.mod_eq_of_lt (by omega)))
  · exact (get8_agree (kept _ _ (by omega))).trans (fileType.trans (Nat.mod_eq_of_lt type))
  · intro i inside
    have last : Agree (putHeader padded (pos+link.size) 0 (1024+word-(pos+link.size)) 0 0) padded (pos+8+i) 1 :=
      agree_header (by omega)
    refine (last _ (Nat.le_refl _) (by omega)).trans ?_
    rw [show padded (pos+8+i) = named (pos+8+i) from fill_outside (by omega)]
    rw [show named (pos+8+i) = link.bytes (0+(pos+8+i-(pos+8))) from blit_inside (by omega) (by omega)]
    congr 1
    omega

theorem putRecord_puts (buffer : Bytes) (small : link.inode < word) (fits : pos+link.size ≤ 1024) :
    PutRecord buffer (putRecord buffer pos link.inode link.bytes link.name.length link.type.toNat) pos link := by
  obtain ⟨before,record,ended,rest⟩ := putRecord_record buffer pos small
  refine ⟨before,record,ended,rest.trans ?_⟩
  unfold word
  omega

-- The bytes behind the new terminator.
theorem putRecord_behind (buffer : Bytes) (link : Link) (out : pos+link.size+8 ≤ i) :
    putRecord buffer pos link.inode link.bytes link.name.length link.type.toNat i = buffer i := by
  have size : link.size = recordLength link.name.length := rfl
  have bounds := link.size_bounds
  have kept : Agree (putRecord buffer pos link.inode link.bytes link.name.length link.type.toNat) buffer i 1 := by
    refine (agree_header (by omega)).trans ((agree_fill ?_).trans ((agree_blit (by omega)).trans (agree_header (by omega))))
    unfold recordLength nameLenWithPadding at size
    omega
  exact kept i (Nat.le_refl _) (Nat.lt_succ_self _)

def elementsOf (buffer : Bytes) : Nat → List Link → List DirectoryElement
  | _,[] => []
  | pos,link::rest => elementAt buffer pos::elementsOf buffer (pos+link.size) rest

theorem Record.next (record : Record buffer pos link) (small : pos+link.size < word) :
    ext2DirWalkNext buffer (elementAt buffer pos) = elementAt buffer (pos+link.size) := by
  have where_ : ((elementAt buffer pos).bufferPos+(elementAt buffer pos).recLen)%word = pos+link.size := by
    show (pos+get16 buffer (pos+4))%word = pos+link.size
    rw [record.recLen,Nat.mod_eq_of_lt small]
  rw [ext2DirWalkNext,where_]

theorem Listed.walk (listed : Listed buffer pos links) (nonzero : ∀ link ∈ links, link.inode ≠ 0)
    (ended : get32 buffer (pos+totalSize links) = 0) (small : pos+totalSize links < word) (enough : links.length < fuel) :
    dirWalk buffer fuel (elementAt buffer pos) =
      some (elementsOf buffer pos links,elementAt buffer (pos+totalSize links)) := by
  induction links generalizing pos fuel with
  | nil =>
      cases fuel with
      | zero => omega
      | succ fuel =>
          have here : (elementAt buffer pos).inode = 0 := ended
          rw [dirWalk,if_pos here]
          rfl
  | cons link rest ih =>
      obtain ⟨record,tail⟩ := listed
      rw [totalSize_cons,← Nat.add_assoc] at ended small
      rw [totalSize_cons,← Nat.add_assoc]
      simp only [List.length_cons] at enough
      cases fuel with
      | zero => omega
      | succ fuel =>
          have here : (elementAt buffer pos).inode ≠ 0 := by
            rw [show (elementAt buffer pos).inode = link.inode from record.inode]
            exact nonzero link List.mem_cons_self
          have later := ih tail (fun l member => nonzero l (List.mem_cons_of_mem _ member)) ended small (by omega : rest.length < fuel)
          rw [dirWalk,if_neg here,record.next (by omega),later]
          rfl

-- What a visitor sees of an element, and of the link it stands for.
def seen (buffer : Bytes) (element : DirectoryElement) : Nat × Nat × List Byte :=
  (element.inode,element.fileType,elementName buffer element)
def Link.entry (link : Link) : Nat × Nat × List Byte := (link.inode,link.type.toNat,link.name)

theorem Record.seen (record : Record buffer pos link) : Ext2Records.seen buffer (elementAt buffer pos) = link.entry := by
  have name : elementName buffer (elementAt buffer pos) = link.name := by
    apply List.ext_getElem
    · simp [elementName,elementAt,record.nameLen]
    · intro i _ inside
      simp only [elementName,elementAt,List.getElem_map,List.getElem_range]
      rw [record.name i inside]
      simp [Link.bytes,inside]
  rw [Ext2Records.seen,name]
  simp only [elementAt,record.inode,record.fileType,Link.entry]

theorem Listed.seen (listed : Listed buffer pos links) :
    (elementsOf buffer pos links).map (Ext2Records.seen buffer) = links.map Link.entry := by
  induction links generalizing pos with
  | nil => rfl
  | cons link rest ih =>
      obtain ⟨record,tail⟩ := listed
      rw [elementsOf,List.map_cons,List.map_cons,record.seen,ih tail]

theorem Listed.recLens (listed : Listed buffer pos links) :
    ((elementsOf buffer pos links).map DirectoryElement.recLen).sum = totalSize links := by
  induction links generalizing pos with
  | nil => rfl
  | cons link rest ih =>
      obtain ⟨record,tail⟩ := listed
      rw [elementsOf,List.map_cons,List.sum_cons,ih tail]
      show get16 buffer (pos+4)+_ = _
      rw [record.recLen,totalSize_cons]

end KaracaOS.Ext2Records
