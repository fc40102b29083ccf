import Mathlib

/-!
# The text of the catalog

The stream operators of src/core/storage/sm_meta.h. A text is a list of characters, and `>>` takes the
next word of it. The keys of `m_tabs` are the names of the tables, so the map is the list of its
values here, in the order of the keys.
-/

namespace Catalog

/-- What is in the file. -/
abbrev Text : Type := List Char

/-! ## Streams -/

/-- White space. -/
def isSpace (c : Char) : Bool := c = ' ' || 9 ≤ c.toNat && c.toNat ≤ 13

/-- The words of a text. -/
def words (text : Text) : List Text := (text.splitOnP isSpace).filter (!·.isEmpty)

/-- `operator<<` of an integer. -/
def showInt : Int → Text
  | .ofNat n => Nat.toDigits 10 n
  | .negSucc n => '-' :: Nat.toDigits 10 (n + 1)

/-- Takes a value from the words that are left. -/
abbrev Reader : Type → Type := StateT (List Text) Option

/-- `operator>>` into a string. -/
def readString : Reader String := fun
  | [] => none
  | w :: ws => some (.ofList w, ws)

/-- `operator>>` into a number. -/
def readNat : Reader Nat := fun
  | [] => none
  | w :: ws => if w.all Char.isDigit then some (Nat.ofDigitChars 10 w 0, ws) else none

/-- `operator>>` into an `int`. -/
def readInt : Reader Int := fun
  | ('-' :: w) :: ws => (readNat (w :: ws)).map fun r => (-r.1, r.2)
  | ws => (readNat ws).map fun r => (r.1, r.2)

/-- A loop of `n` rounds. -/
def times {α : Type} (read : Reader α) : Nat → Reader (List α)
  | 0 => return []
  | n + 1 => do
    let x ← read
    return x :: (← times read n)

/-! ## The catalog -/

/-- The type of a column. -/
inductive ColType where
  | TYPE_INT | TYPE_FLOAT | TYPE_STRING | TYPE_ITEMKEY
  deriving DecidableEq

/-- The type of an index. -/
inductive IndexType where
  | BTREE_INDEX | HASH_INDEX | UNKNOW_INDEX
  deriving DecidableEq

/-- A column. -/
structure ColMeta where
  tabName : String
  name : String
  type : ColType
  len : Int
  offset : Int
  deriving DecidableEq

/-- An index. -/
structure IndexMeta where
  tabName : String
  colTotLen : Int
  colNum : Int
  cols : List ColMeta
  type : IndexType
  deriving DecidableEq

/-- A table. -/
structure TabMeta where
  name : String
  cols : List ColMeta
  indexes : List IndexMeta
  primaryKey : String
  tableId : Int
  deriving DecidableEq

/-- The catalog. -/
structure DBMeta where
  name : String
  tabs : List TabMeta
  deriving DecidableEq

/-! ## `operator<<` -/

/-- The number that stands for a type. -/
def ColType.toInt : ColType → Int
  | TYPE_INT => 0
  | TYPE_FLOAT => 1
  | TYPE_STRING => 2
  | TYPE_ITEMKEY => 3

/-- `operator<<` of a column. -/
def ColMeta.write (col : ColMeta) : Text :=
  col.tabName.toList ++ ' ' :: col.name.toList ++ ' ' :: showInt col.type.toInt ++
    ' ' :: showInt col.len ++ ' ' :: showInt col.offset

/-- The word that stands for a type. -/
def IndexType.word (type : IndexType) : String :=
  if type = BTREE_INDEX then "BPLUSTREE" else "UNKNOW"

/-- `operator<<` of an index. -/
def IndexMeta.write (index : IndexMeta) : Text :=
  index.tabName.toList ++ ' ' :: showInt index.colTotLen ++ ' ' :: showInt index.colNum ++
    ' ' :: index.type.word.toList ++ index.cols.flatMap fun col => '\n' :: col.write

/-- The word for the primary key. -/
def TabMeta.pkWord (tab : TabMeta) : String :=
  if tab.primaryKey.length = 0 then "__NO_PK__" else tab.primaryKey

/-- `operator<<` of a table. -/
def TabMeta.write (tab : TabMeta) : Text :=
  tab.name.toList ++ '\n' :: showInt tab.tableId ++ '\n' :: Nat.toDigits 10 tab.cols.length ++
    '\n' :: tab.cols.flatMap (fun col => col.write ++ ['\n']) ++
    Nat.toDigits 10 tab.indexes.length ++
    '\n' :: tab.indexes.flatMap (fun index => index.write ++ ['\n']) ++
    tab.pkWord.toList ++ ['\n']

/-- `operator<<` of the catalog. -/
def DBMeta.write (db : DBMeta) : Text :=
  db.name.toList ++ '\n' :: Nat.toDigits 10 db.tabs.length ++
    '\n' :: db.tabs.flatMap fun tab => tab.write ++ ['\n']

/-! ## `operator>>` -/

/-- The type for a number. -/
def ColType.ofInt : Int → ColType
  | 1 => TYPE_FLOAT
  | 2 => TYPE_STRING
  | 3 => TYPE_ITEMKEY
  | _ => TYPE_INT

/-- `operator>>` into a column. -/
def readCol : Reader ColMeta := do
  return ⟨← readString, ← readString, .ofInt (← readInt), ← readInt, ← readInt⟩

/-- `operator>>` into an index. -/
def readIndex : Reader IndexMeta := do
  let tabName ← readString
  let colTotLen ← readInt
  let colNum ← readInt
  let type := if (← readString) = "BPLUSTREE" then .BTREE_INDEX else .UNKNOW_INDEX
  return ⟨tabName, colTotLen, colNum, ← times readCol colNum.toNat, type⟩

/-- `operator>>` into a table. -/
def readTab : Reader TabMeta := do
  let name ← readString
  let tableId ← readInt
  let cols ← times readCol (← readNat)
  let indexes ← times readIndex (← readNat)
  let pk ← readString
  return ⟨name, cols, indexes, if pk = "__NO_PK__" then "" else pk, tableId⟩

/-- `m_tabs[tab.name] = tab` -/
def insertTab (tabs : List TabMeta) (tab : TabMeta) : List TabMeta :=
  match tabs with
  | [] => [tab]
  | x :: xs =>
    if tab.name < x.name then tab :: x :: xs
    else if tab.name = x.name then tab :: xs
    else x :: insertTab xs tab

/-- `operator>>` into the catalog. -/
def readDB : Reader DBMeta := do
  let name ← readString
  return ⟨name, (← times readTab (← readNat)).foldl insertTab []⟩

/-! ## Words that are read back -/

/-- Not empty and without spaces. -/
def Word (w : Text) : Prop := w ≠ [] ∧ ∀ c ∈ w, isSpace c = false

section Words

variable {w : Text} {c : Char} {rest : Text} {ws : List Text}

theorem words_append (hw : Word w) (hc : isSpace c = true) :
    words (w ++ c :: rest) = w :: words rest := by
  rw [words, List.splitOnP_append_cons_of_forall_mem hw.2 c hc]
  simp [words, hw.1]

theorem words_space (hc : isSpace c = true) : words (c :: rest) = words rest := by
  have hsplit := List.splitOnP_append_cons [] rest hc
  simp only [List.nil_append] at hsplit
  simp [words, hsplit]

theorem not_isSpace_of_isDigit (h : c.isDigit = true) : isSpace c = false := by
  have hc : 48 ≤ c.toNat := (Char.isDigit_iff_toNat.1 h).1
  have hne : c ≠ ' ' := by
    rintro rfl
    cases h
  simp only [isSpace, hne, decide_false, Bool.false_or, Bool.and_eq_false_iff,
    decide_eq_false_iff_not]
  omega

theorem word_toDigits (n : Nat) : Word (Nat.toDigits 10 n) :=
  ⟨Nat.toDigits_ne_nil, fun _ hc =>
    not_isSpace_of_isDigit (Nat.isDigit_of_mem_toDigits (by decide) (by decide) hc)⟩

theorem word_showInt (i : Int) : Word (showInt i) := by
  cases i with
  | ofNat n => exact word_toDigits n
  | negSucc n => exact ⟨nofun, List.forall_mem_cons.2 ⟨rfl, (word_toDigits (n + 1)).2⟩⟩

theorem readNat_toDigits (n : Nat) : readNat (Nat.toDigits 10 n :: ws) = some (n, ws) := by
  have hdigits : (Nat.toDigits 10 n).all Char.isDigit = true :=
    List.all_eq_true.2 fun _ hc => Nat.isDigit_of_mem_toDigits (by decide) (by decide) hc
  simp [readNat, hdigits, Nat.ofDigitChars_ten_toDigits]

theorem readInt_showInt (i : Int) : readInt (showInt i :: ws) = some (i, ws) := by
  cases i with
  | ofNat n =>
    have hhead : ∀ w, Nat.toDigits 10 n ≠ '-' :: w := by
      intro w hw
      have hdigit := Nat.isDigit_of_mem_toDigits (n := n) (b := 10) (c := '-') (by decide) (by decide)
        (by simp [hw])
      cases hdigit
    rw [showInt, readInt]
    · simp [readNat_toDigits]
    · exact fun w ws' heq => hhead w (List.cons.inj heq).1
  | negSucc n =>
    simp [showInt, readInt, readNat_toDigits]
    omega

end Words

/-! ## The round trip -/

section Read

variable {α β : Type} {rest : Text}

theorem bind_apply (x : Reader α) (f : α → Reader β) (ws : List Text) :
    (x >>= f) ws = (x ws).bind fun r => f r.1 r.2 := rfl

theorem map_apply (f : α → β) (x : Reader α) (ws : List Text) :
    (f <$> x) ws = (x ws).map fun r => (f r.1, r.2) := by
  show (x ws).bind _ = _
  cases x ws <;> rfl

theorem readString_cons (s : String) (ws : List Text) :
    readString (s.toList :: ws) = some (s, ws) := by
  simp [readString]

/-- A list whose elements stand on lines of their own. -/
theorem times_words {read : Reader α} {write : α → Text} (back : α → α) {l : List α}
    (h : ∀ x ∈ l, ∀ rest, read (words (write x ++ '\n' :: rest)) = some (back x, words rest))
    (rest : Text) : times read l.length (words (l.flatMap (fun x => write x ++ ['\n']) ++ rest)) =
      some (l.map back, words rest) := by
  induction l with
  | nil => rfl
  | cons x l ih =>
    have htail := ih fun y hy => h y (List.mem_cons_of_mem x hy)
    simp [times, bind_apply, map_apply, h x List.mem_cons_self, htail]

/-- The names are words. -/
structure ColMeta.Ok (col : ColMeta) : Prop where
  tabName : Word col.tabName.toList
  name : Word col.name.toList

theorem readCol_words {col : ColMeta} (ok : col.Ok) (rest : Text) :
    readCol (words (col.write ++ '\n' :: rest)) = some (col, words rest) := by
  have htype : ColType.ofInt col.type.toInt = col.type := by cases col.type <;> rfl
  simp [readCol, ColMeta.write, bind_apply, map_apply, words_append, word_showInt, ok.tabName,
    ok.name, readString_cons, readInt_showInt, htype, isSpace]

theorem readCols_words {cols : List ColMeta} (ok : ∀ col ∈ cols, col.Ok) (rest : Text) :
    times readCol cols.length (words (cols.flatMap (fun col => col.write ++ ['\n']) ++ rest)) =
      some (cols, words rest) := by
  simpa using times_words id (fun col hcol => readCol_words (ok col hcol)) rest

/-- An index that is read back. -/
structure IndexMeta.Ok (index : IndexMeta) : Prop where
  tabName : Word index.tabName.toList
  cols : ∀ col ∈ index.cols, col.Ok
  colNum : index.colNum = index.cols.length

/-- What is read for the index. -/
def IndexMeta.asRead (index : IndexMeta) : IndexMeta :=
  { index with type := if index.type = .BTREE_INDEX then .BTREE_INDEX else .UNKNOW_INDEX }

theorem IndexType.word_word (type : IndexType) : Word type.word.toList := by
  cases type <;> simp [word, Word, isSpace]

theorem IndexType.word_eq (type : IndexType) : type.word = "BPLUSTREE" ↔ type = BTREE_INDEX := by
  cases type <;> decide +kernel

theorem readIndex_words {index : IndexMeta} (ok : index.Ok) (rest : Text) :
    readIndex (words (index.write ++ '\n' :: rest)) = some (index.asRead, words rest) := by
  have hlines : index.cols.flatMap (fun col => '\n' :: col.write) ++ '\n' :: rest =
      '\n' :: (index.cols.flatMap (fun col => col.write ++ ['\n']) ++ rest) := by
    induction index.cols with
    | nil => rfl
    | cons col cols ih => simp [ih]
  simp [readIndex, IndexMeta.write, bind_apply, map_apply, words_append, word_showInt, ok.tabName,
    readString_cons, readInt_showInt, isSpace, hlines, IndexType.word_word, IndexType.word_eq,
    ok.colNum, readCols_words ok.cols, IndexMeta.asRead]

/-- No primary key is named like the mark of an absent one. -/
structure TabMeta.Ok (tab : TabMeta) : Prop where
  name : Word tab.name.toList
  cols : ∀ col ∈ tab.cols, col.Ok
  indexes : ∀ index ∈ tab.indexes, index.Ok
  primaryKey : tab.primaryKey = "" ∨ Word tab.primaryKey.toList ∧ tab.primaryKey ≠ "__NO_PK__"

/-- What is read back of a table. -/
def TabMeta.asRead (tab : TabMeta) : TabMeta :=
  { tab with indexes := tab.indexes.map IndexMeta.asRead }

theorem readTab_words {tab : TabMeta} (ok : tab.Ok) (rest : Text) :
    readTab (words (tab.write ++ '\n' :: rest)) = some (tab.asRead, words rest) := by
  have hpk : Word tab.pkWord.toList ∧
      (if tab.pkWord = "__NO_PK__" then "" else tab.pkWord) = tab.primaryKey := by
    rcases ok.primaryKey with hpk | ⟨hword, hne⟩
    · simp [TabMeta.pkWord, hpk, Word, isSpace]
    · have hlen : tab.primaryKey.length ≠ 0 := fun h0 =>
        hword.1 (List.length_eq_zero_iff.1 (by simpa using h0))
      simp [TabMeta.pkWord, hlen, hword, hne]
  have hindexes := times_words _ fun index hindex => readIndex_words (ok.indexes index hindex)
  simp [readTab, TabMeta.write, bind_apply, map_apply, words_append, words_space, word_showInt,
    word_toDigits, ok.name, readString_cons, readInt_showInt, readNat_toDigits, isSpace,
    readCols_words ok.cols, hindexes, hpk, TabMeta.asRead]

/-- `m_tabs` is in order. -/
structure DBMeta.Ok (db : DBMeta) : Prop where
  name : Word db.name.toList
  tabs : ∀ tab ∈ db.tabs, tab.Ok
  sorted : db.tabs.Pairwise (·.name < ·.name)

theorem foldl_insertTab {l tabs : List TabMeta} (h : (l ++ tabs).Pairwise (·.name < ·.name)) :
    tabs.foldl insertTab l = l ++ tabs := by
  induction tabs generalizing l with
  | nil => simp
  | cons tab tabs ih =>
    -- the new table is behind all others
    have hlast : ∀ {l : List TabMeta}, (∀ x ∈ l, x.name < tab.name) → insertTab l tab = l ++ [tab] := by
      intro l hl
      induction l with
      | nil => rfl
      | cons x l ihl =>
        have hx := hl x List.mem_cons_self
        rw [insertTab, if_neg hx.not_gt, if_neg hx.ne', ihl fun y hy => hl y (List.mem_cons_of_mem x hy)]
        rfl
    have hbelow : ∀ x ∈ l, x.name < tab.name := fun x hx =>
      (List.pairwise_append.1 h).2.2 x hx tab List.mem_cons_self
    rw [List.foldl_cons, hlast hbelow, ih (by simpa using h)]
    simp

theorem map_eq_self {f : α → α} {l : List α} : l.map f = l ↔ ∀ x ∈ l, f x = x := by
  simpa using List.map_inj_left (f := f) (g := id) (l := l)

theorem IndexMeta.asRead_eq (index : IndexMeta) :
    index.asRead = index ↔ index.type ≠ .HASH_INDEX := by
  obtain ⟨tabName, colTotLen, colNum, cols, type⟩ := index
  cases type <;> simp [asRead]

theorem TabMeta.asRead_eq (tab : TabMeta) :
    tab.asRead = tab ↔ ∀ index ∈ tab.indexes, index.type ≠ .HASH_INDEX := by
  obtain ⟨name, cols, indexes, primaryKey, tableId⟩ := tab
  simp [asRead, map_eq_self, IndexMeta.asRead_eq]

/-- The catalog is read back as it was exactly if it has no hash index. -/
theorem catalog_read_back {db : DBMeta} (ok : db.Ok) :
    (readDB (words db.write)).map Prod.fst = some db ↔
      ∀ tab ∈ db.tabs, ∀ index ∈ tab.indexes, index.type ≠ .HASH_INDEX := by
  have htabs := times_words _ (fun tab htab => readTab_words (ok.tabs tab htab)) []
  have hsorted : (db.tabs.map TabMeta.asRead).Pairwise (·.name < ·.name) :=
    List.pairwise_map.2 ok.sorted
  have hread : readDB (words db.write) = some (⟨db.name, db.tabs.map TabMeta.asRead⟩, words []) := by
    rw [List.append_nil] at htabs
    simp [readDB, DBMeta.write, bind_apply, map_apply, words_append, word_toDigits, ok.name,
      readString_cons, readNat_toDigits, isSpace, htabs, foldl_insertTab (l := []) hsorted]
  obtain ⟨name, tabs⟩ := db
  simp [hread, map_eq_self, TabMeta.asRead_eq]

end Read

def idColumn : ColMeta := ⟨"t", "id", .TYPE_ITEMKEY, 8, 0⟩

/-- A database with one table, which has one column and an index of it. -/
def oneTable (type : IndexType) : DBMeta :=
  ⟨"db", [⟨"t", [idColumn], [⟨"t", 8, 1, [idColumn], type⟩], "id", 0⟩]⟩

theorem oneTable_ok : (oneTable .BTREE_INDEX).Ok := by
  have hword : Word "t".toList ∧ Word "id".toList := by simp [Word, isSpace]
  have hcols : ∀ col ∈ [idColumn], col.Ok := by
    simpa using ⟨hword.1, hword.2⟩
  refine ⟨by simp [oneTable, Word, isSpace], ?_, List.pairwise_singleton ..⟩
  simpa [oneTable] using
    ⟨hword.1, hcols, by simpa using ⟨hword.1, hcols, rfl⟩, .inr ⟨hword.2, by decide +kernel⟩⟩

theorem catalog_read_back_btree :
    (readDB (words (oneTable .BTREE_INDEX).write)).map Prod.fst = some (oneTable .BTREE_INDEX) :=
  (catalog_read_back oneTable_ok).2 (by decide)

theorem hash_index_forgotten :
    (readDB (words (oneTable .HASH_INDEX).write)).map Prod.fst = some (oneTable .UNKNOW_INDEX) ∧
      oneTable .UNKNOW_INDEX ≠ oneTable .HASH_INDEX := by
  decide +kernel

end Catalog
