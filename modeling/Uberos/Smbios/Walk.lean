import Mathlib.Data.List.Basic
import Uberos.Smbios.Model
/-!
# The walk over the SMBIOS structure table

Neither the loop of `_on_start` nor `get_string` knows where the table
ends: what they read, and where they end, is what the table's bytes say.
-/

namespace Uberos

open Library Library.Scan

namespace Smbios

/-! ## Texts -/

/-- The texts that bytes hold: what a null ends. -/
def texts (bytes : List UInt8) : List (List UInt8) := (bytes.splitOn 0).dropLast

variable {m : Memory} {L a e i n structure_ : ℕ}

theorem bytes_nil (h : e ≤ a) : m.bytes a e = [] := by
  rw [Memory.bytes, Nat.sub_eq_zero_of_le h]
  rfl

@[simp] theorem length_bytes (m : Memory) (a e : ℕ) : (m.bytes a e).length = e - a := by
  rw [Memory.bytes, List.length_map, List.length_range]

theorem getElem_bytes (h : i < (m.bytes a e).length) : (m.bytes a e)[i] = m (a + i) := by
  simp [Memory.bytes]

theorem bytes_append (h : a ≤ n) (h' : n ≤ e) : m.bytes a e = m.bytes a n ++ m.bytes n e := by
  refine List.ext_getElem ?_ fun i hi hi' => ?_
  · rw [List.length_append, length_bytes, length_bytes, length_bytes]
    omega
  · rw [getElem_bytes]
    rw [length_bytes] at hi
    obtain hlt | hge := Nat.lt_or_ge i (n - a)
    · rw [List.getElem_append_left (by rwa [length_bytes]), getElem_bytes]
    · rw [List.getElem_append_right (by rwa [length_bytes]), getElem_bytes, length_bytes]
      congr 1
      omega

theorem bytes_cons (h : a < e) : m.bytes a e = m a :: m.bytes (a + 1) e := by
  rw [bytes_append (Nat.le_add_right a 1) h]
  simp [Memory.bytes, List.range_one]

theorem mem_bytes {c : UInt8} : c ∈ m.bytes a e ↔ ∃ j, a ≤ j ∧ j < e ∧ m j = c := by
  rw [Memory.bytes, List.mem_map]
  constructor
  · rintro ⟨i, hi, rfl⟩
    rw [List.mem_range] at hi
    exact ⟨a + i, by omega, by omega, rfl⟩
  · rintro ⟨j, hle, hlt, rfl⟩
    refine ⟨j - a, List.mem_range.mpr (by omega), ?_⟩
    rw [Nat.add_sub_cancel' hle]

/-- A null ends a text, whatever is behind it. -/
theorem texts_append (before after : List UInt8) :
    texts (before ++ 0 :: after) = before.splitOn 0 ++ texts after := by
  rw [texts, List.splitOn_append_cons_self,
    List.dropLast_append_of_ne_nil (List.splitOn_ne_nil _ _), texts]

theorem texts_cons (after : List UInt8) : texts (0 :: after) = [] :: texts after :=
  texts_append [] after

theorem texts_of_notMem {bytes : List UInt8} (h : 0 ∉ bytes) : texts bytes = [] := by
  rw [texts, List.splitOn_eq_singleton h]
  rfl

theorem length_splitOn (bytes : List UInt8) : (bytes.splitOn 0).length = bytes.count 0 + 1 := by
  induction bytes with
  | nil => rfl
  | cons c bytes ih =>
    rw [List.splitOn_cons_eq_if_modifyHead]
    by_cases hc : c = 0
    · rw [if_pos (by simpa using hc), List.length_cons, ih, hc, List.count_cons_self]
    · rw [if_neg (by simpa using hc), List.length_modifyHead, ih, List.count_cons_of_ne hc]

/-- There are as many texts as nulls. -/
theorem length_texts (bytes : List UInt8) : (texts bytes).length = bytes.count 0 := by
  rw [texts, List.length_dropLast, length_splitOn, Nat.add_sub_cancel]

/-- The texts of a table from a place on. -/
def Memory.textsFrom (m : Memory) (L a : ℕ) : List (List UInt8) := texts (m.bytes a L)

/-- A text of so many characters that lies in a table with its null. -/
def TextAt (m : Memory) (L a n : ℕ) : Prop :=
  (∀ i < n, a + i < L ∧ m (a + i) ≠ 0) ∧ a + n < L ∧ m (a + n) = 0

/-- The first text, and those after it. -/
theorem TextAt.textsFrom (h : TextAt m L a n) :
    m.textsFrom L a = m.bytes a (a + n) :: m.textsFrom L (a + n + 1) := by
  obtain ⟨hchars, hinside, hnull⟩ := h
  have hsplit : m.bytes a L = m.bytes a (a + n) ++ 0 :: m.bytes (a + n + 1) L := by
    rw [bytes_append (Nat.le_add_right a n) (Nat.le_of_lt hinside), bytes_cons hinside, hnull]
  have hnotMem : 0 ∉ m.bytes a (a + n) := by
    rw [mem_bytes]
    rintro ⟨j, hle, hlt, hzero⟩
    obtain ⟨-, hne⟩ := hchars (j - a) (by omega)
    rw [Nat.add_sub_cancel' hle] at hne
    exact hne hzero
  rw [Memory.textsFrom, hsplit, texts_append, List.splitOn_eq_singleton hnotMem]
  rfl

/-- Where there is a null there is a first one. -/
theorem exists_textAt (h : 0 < (m.textsFrom L a).length) : ∃ n, TextAt m L a n := by
  have hmem : 0 ∈ m.bytes a L := by
    by_contra hnotMem
    rw [Memory.textsFrom, texts_of_notMem hnotMem] at h
    exact absurd h (Nat.lt_irrefl 0)
  have hexists : ∃ n, a + n < L ∧ m (a + n) = 0 := by
    obtain ⟨j, hle, hlt, hzero⟩ := mem_bytes.mp hmem
    exact ⟨j - a, by omega, by rwa [Nat.add_sub_cancel' hle]⟩
  refine ⟨Nat.find hexists, fun i hi => ?_, Nat.find_spec hexists⟩
  have hlt := (Nat.find_spec hexists).1
  exact ⟨by omega, fun hzero => Nat.find_min hexists hi ⟨by omega, hzero⟩⟩

/-! ## Strings -/

/-- A read inside a table of a length. -/
def Inside (L : ℕ) : Read → Prop
  | .table place => place < L
  | .null => False

theorem yields_byte (place : ℕ) : Yields (Inside L) m (byte place) (m place) (place < L) :=
  yields_read

theorem meets_strlen : Meets (Inside L) m (Stdlib.strlen (textAt a)) n ↔ TextAt m L a n :=
  Stdlib.meets_strlen fun i => yields_byte (a + i)

theorem meets_showText {t : List UInt8} :
    Meets (Inside L) m (showText (some a)) t ↔ (m.textsFrom L a).head? = some t := by
  rw [showText, Scan.meets_bind]
  constructor
  · rintro ⟨n, hlength, hshown⟩
    have htext := meets_strlen.mp hlength
    obtain ⟨rfl, -⟩ := (yields_ask t).mp hshown
    rw [htext.textsFrom, List.head?_cons]
  · intro hhead
    obtain ⟨n, htext⟩ := exists_textAt (m := m) (L := L) (a := a)
      (List.length_pos_of_mem (List.mem_of_head? hhead))
    rw [htext.textsFrom, List.head?_cons] at hhead
    exact ⟨n, meets_strlen.mpr htext, (yields_ask t).mpr ⟨Option.some.inj hhead, trivial⟩⟩

/-- **The text that `get_string` counts to** from the end of the formatted
area, whatever structure it is in. -/
theorem meets_nthString {t : List UInt8} : ∀ i a,
    (∃ text, Meets (Inside L) m (nthString i a) text ∧ Meets (Inside L) m (showText text) t) ↔
      if i = 0 then [] = t else (m.textsFrom L a)[i - 1]? = some t
  | 0, a => by simp [nthString, showText]
  | 1, a => by
    simp only [nthString, meets_pure, exists_eq_left', meets_showText, List.head?_eq_getElem?]
    simp
  | i + 2, a => by
    have hrest := meets_nthString (t := t) (i + 1)
    rw [if_neg (by omega), Nat.add_sub_cancel (i + 1) 1]
    constructor
    · rintro ⟨text, htext, hshown⟩
      rw [nthString, Scan.meets_bind] at htext
      obtain ⟨n, hlength, htext⟩ := htext
      have hnext := (hrest (a + n + 1)).mp ⟨text, htext, hshown⟩
      rw [if_neg (by omega)] at hnext
      rw [(meets_strlen.mp hlength).textsFrom, List.getElem?_cons_succ]
      exact hnext
    · intro hget
      obtain ⟨n, htext⟩ := exists_textAt (m := m) (L := L) (a := a) (by
        have hlt := (List.getElem?_eq_some_iff.mp hget).1
        omega)
      rw [htext.textsFrom, List.getElem?_cons_succ] at hget
      obtain ⟨text, hmeets, hshown⟩ := (hrest (a + n + 1)).mpr (by rwa [if_neg (by omega)])
      refine ⟨text, ?_, hshown⟩
      rw [nthString, Scan.meets_bind]
      exact ⟨n, meets_strlen.mpr htext, hmeets⟩

/-- Where the strings of a structure start: the end of its formatted area. -/
def Memory.stringsOf (m : Memory) (structure_ : ℕ) : ℕ := structure_ + (m (structure_ + 1)).toNat

/-- What `get_string(i)` shows. -/
theorem meets_readString {t : List UInt8} :
    Meets (Inside L) m (readString structure_ i) t ↔ structure_ + 1 < L ∧
      if i = 0 then [] = t else (m.textsFrom L (m.stringsOf structure_))[i - 1]? = some t := by
  rw [readString, Scan.meets_bind, ← meets_nthString]
  constructor
  · rintro ⟨text, htext, hshown⟩
    rw [getString, (yields_byte _).meets_bind] at htext
    exact ⟨htext.1, text, htext.2, hshown⟩
  · rintro ⟨hinside, text, htext, hshown⟩
    refine ⟨text, ?_, hshown⟩
    rw [getString, (yields_byte _).meets_bind]
    exact ⟨hinside, htext⟩

/-! ## Members -/

/-- What is read to print a member is inside the table. -/
def FieldInside (m : Memory) (L structure_ : ℕ) : Field → Prop
  | .byte offset => structure_ + offset < L
  | .text offset => structure_ + offset < L ∧ structure_ + 1 < L ∧
      (m (structure_ + offset)).toNat ≤ (m.bytes (m.stringsOf structure_) L).count 0
  | .missing => False

/-- The string with a number is inside where there are nulls enough. -/
theorem exists_meets_readString :
    (∃ t, Meets (Inside L) m (readString structure_ i) t) ↔
      structure_ + 1 < L ∧ i ≤ (m.bytes (m.stringsOf structure_) L).count 0 := by
  have hlength : (m.textsFrom L (m.stringsOf structure_)).length =
      (m.bytes (m.stringsOf structure_) L).count 0 := length_texts _
  rw [← hlength]
  constructor
  · rintro ⟨t, ht⟩
    obtain ⟨hinside, ht⟩ := meets_readString.mp ht
    refine ⟨hinside, ?_⟩
    split at ht
    · omega
    · have hlt := (List.getElem?_eq_some_iff.mp ht).1
      omega
  · rintro ⟨hinside, hle⟩
    by_cases hzero : i = 0
    · exact ⟨[], meets_readString.mpr ⟨hinside, by rw [if_pos hzero]⟩⟩
    · have hlt : i - 1 < (m.textsFrom L (m.stringsOf structure_)).length := by omega
      refine ⟨(m.textsFrom L (m.stringsOf structure_))[i - 1], meets_readString.mpr ⟨hinside, ?_⟩⟩
      rw [if_neg hzero, List.getElem?_eq_getElem hlt]

theorem yields_readField (field : Field) :
    Yields (Inside L) m (readField structure_ field) () (FieldInside m L structure_ field) := by
  intro u
  cases field with
  | byte offset =>
    rw [readField, (yields_byte _).meets_bind, meets_pure, FieldInside]
    simp
  | text offset =>
    rw [readField, (yields_byte _).meets_bind, FieldInside, ← exists_meets_readString,
      Scan.meets_bind]
    simp
  | missing => exact yields_read u

theorem yields_readFields (fields : List Field) :
    Yields (Inside L) m (readFields structure_ fields) ()
      (∀ field ∈ fields, FieldInside m L structure_ field) := by
  induction fields with
  | nil => exact yields_pure.congr (by simp) fun _ => rfl
  | cons field fields ih =>
    refine ((yields_readField field).bind ih).congr ?_ fun _ => rfl
    rw [List.forall_mem_cons]

/-- Members, and what is done after them. -/
theorem yields_fields_then {α : Type} {x : Program α} {value : α} {allowed : Prop}
    (fields : List Field) (h : Yields (Inside L) m x value allowed) :
    Yields (Inside L) m (readFields structure_ fields >>= fun _ => x) value
      ((∀ field ∈ fields, FieldInside m L structure_ field) ∧ allowed) :=
  (yields_readFields fields).bind h

/-- The members that are printed of a `FirmwareInformation`. -/
def Memory.firmwareFields (m : Memory) (structure_ : ℕ) : List Field :=
  firmwareInformation ++ [.byte 10] ++
    if bit (m (structure_ + 10)) 3 then [] else [.byte 11, .byte 12, .byte 13]

theorem exists_yields_printFirmwareInformation (supported : Supported) :
    ∃ supported', Yields (Inside L) m (printFirmwareInformation structure_ supported) supported'
      (∀ field ∈ m.firmwareFields structure_, FieldInside m L structure_ field) := by
  have hfirst : ∀ fields : List Field,
      (∀ field ∈ firmwareInformation ++ [.byte 10] ++ fields, FieldInside m L structure_ field) ↔
        (∀ field ∈ firmwareInformation, FieldInside m L structure_ field) ∧
          structure_ + 10 < L ∧ ∀ field ∈ fields, FieldInside m L structure_ field := by
    intro fields
    rw [List.forall_mem_append, List.forall_mem_append, List.forall_mem_singleton, and_assoc]
    rfl
  rw [Memory.firmwareFields, hfirst]
  by_cases hbit : bit (m (structure_ + 10)) 3
  · rw [if_pos hbit]
    refine ⟨supported, yields_fields_then _ ((yields_byte _).bind ?_)⟩
    rw [if_pos hbit]
    exact yields_pure.congr (by simp) fun _ => rfl
  · rw [if_neg hbit]
    refine ⟨⟨bit (m (structure_ + 10)) 4, bit (m (structure_ + 10)) 7⟩,
      yields_fields_then _ ((yields_byte _).bind ?_)⟩
    rw [if_neg hbit]
    exact (yields_fields_then _ yields_pure).congr (and_iff_left trivial) fun _ => rfl

/-- The members that are printed of a `SystemEnclosure`. -/
def Memory.enclosureFields (m : Memory) (structure_ : ℕ) : List Field :=
  [.text 4, .byte 5] ++ (chassisText (m (structure_ + 5)) ++ [.text 6, .text 7, .text 8]) ++
    [.byte 17, .byte 18, .text (skuOffset (m (structure_ + 17)) (m (structure_ + 18)))]

theorem yields_printSystemEnclosure :
    Yields (Inside L) m (printSystemEnclosure structure_) ()
      (∀ field ∈ m.enclosureFields structure_, FieldInside m L structure_ field) := by
  refine (yields_fields_then _ ((yields_byte _).bind (yields_fields_then _
    ((yields_byte _).bind ((yields_byte _).bind (yields_readFields _)))))).congr ?_ fun _ => rfl
  have hbyte : ∀ offset, FieldInside m L structure_ (.byte offset) ↔ structure_ + offset < L :=
    fun _ => Iff.rfl
  simp only [Memory.enclosureFields, List.forall_mem_append, List.forall_mem_cons, hbyte,
    List.not_mem_nil, IsEmpty.forall_iff, implies_true, and_true, and_assoc]

/-- The members that are printed of a structure, by its type. -/
def Memory.fieldsOf (m : Memory) (structure_ : ℕ) : List Field :=
  match (m structure_).toNat with
  | 0 => m.firmwareFields structure_
  | 1 => systemInformation
  | 3 => m.enclosureFields structure_
  | 4 => processorInformation
  | _ => []

/-- **What is printed of a structure** lies inside the table. -/
theorem exists_yields_printStructure (structure_ : ℕ) (supported : Supported) :
    ∃ supported', Yields (Inside L) m (printStructure structure_ (m structure_) supported)
      supported' (∀ field ∈ m.fieldsOf structure_, FieldInside m L structure_ field) := by
  rw [printStructure, Memory.fieldsOf]
  generalize (m structure_).toNat = type
  match type with
  | 0 => exact exists_yields_printFirmwareInformation supported
  | 1 => exact ⟨supported, (yields_fields_then _ yields_pure).congr
      (and_iff_left trivial) fun _ => rfl⟩
  | 2 => exact ⟨supported, yields_pure.congr (by simp) fun _ => rfl⟩
  | 3 => exact ⟨supported, (yields_printSystemEnclosure.bind (f := fun _ => pure supported)
      yields_pure).congr (and_iff_left trivial) fun _ => rfl⟩
  | 4 => exact ⟨supported, (yields_fields_then _ yields_pure).congr
      (and_iff_left trivial) fun _ => rfl⟩
  | n + 5 => exact ⟨supported, yields_pure.congr (by simp) fun _ => rfl⟩

/-! ## The structures of a table -/

/-- **The two nulls that end a structure**: the first ones from the end of
its formatted area on, and inside the table. -/
structure EndsAt (m : Memory) (L a e : ℕ) : Prop where
  le : a ≤ e
  inside : e + 2 ≤ L
  null : m e = 0
  null_succ : m (e + 1) = 0
  first : ∀ j, a ≤ j → j < e → ¬(m j = 0 ∧ m (j + 1) = 0)

theorem EndsAt.unique {e' : ℕ} (h : EndsAt m L a e) (h' : EndsAt m L a e') : e = e' := by
  obtain hlt | heq | hgt := Nat.lt_trichotomy e e'
  · exact absurd ⟨h.null, h.null_succ⟩ (h'.first e h.le hlt)
  · exact heq
  · exact absurd ⟨h'.null, h'.null_succ⟩ (h.first e' h'.le hgt)

/-- The loop that looks for the end of a structure. -/
theorem meets_endLoop : Meets (Inside L) m (.loop endTurn a) e ↔ EndsAt m L a e := by
  have hmore : ∀ s s', Meets (Inside L) m (endTurn s) (.inl s') ↔
      (s < L ∧ (m s ≠ 0 ∨ (s + 1 < L ∧ m (s + 1) ≠ 0))) ∧ s' = s + 1 := by
    intro s s'
    simp only [endTurn, (yields_byte _).meets_bind, meets_ite, meets_pure]
    grind
  have hdone : ∀ s e, Meets (Inside L) m (endTurn s) (.inr e) ↔
      (s < L ∧ m s = 0 ∧ s + 1 < L ∧ m (s + 1) = 0) ∧ e = s := by
    intro s e
    simp only [endTurn, (yields_byte _).meets_bind, meets_ite, meets_pure]
    grind
  rw [meets_loop, reaches_iff_of_count hmore hdone]
  constructor
  · rintro ⟨n, hbefore, ⟨-, hnull, hinside, hsucc⟩, rfl⟩
    refine ⟨Nat.le_add_right a n, hinside, hnull, hsucc, fun j hle hlt hboth => ?_⟩
    obtain ⟨-, hne⟩ := hbefore (j - a) (by omega)
    rw [Nat.add_sub_cancel' hle] at hne
    exact hne.elim (absurd hboth.1) fun h => absurd hboth.2 h.2
  · intro h
    have hle := h.le
    have hinside := h.inside
    refine ⟨e - a, fun i hi => ⟨by omega, ?_⟩, ?_, by omega⟩
    · have hfirst := h.first (a + i) (by omega) (by omega)
      by_cases hzero : m (a + i) = 0
      · exact Or.inr ⟨by omega, fun hsucc => hfirst ⟨hzero, hsucc⟩⟩
      · exact Or.inl hzero
    · rw [Nat.add_sub_cancel' hle]
      exact ⟨by omega, h.null, by omega, h.null_succ⟩

/-- **A chain of structures** up to the end of the table: each has its end
and the members that are printed of it inside. -/
inductive Chain (m : Memory) (L : ℕ) : ℕ → List ℕ → Prop
  | done {a : ℕ} (h : L ≤ a) : Chain m L a []
  | more {a e : ℕ} {structures : List ℕ} (h : a < L)
      (fields : ∀ field ∈ m.fieldsOf a, FieldInside m L a field)
      (ends : EndsAt m L (m.stringsOf a) e) (rest : Chain m L (e + 2) structures) :
      Chain m L a (a :: structures)

/-- A turn at a structure. -/
theorem meets_walkTurn {walk walk' : Walk} (h : walk.addr < L) :
    Meets (Inside L) m (walkTurn L walk) (.inl walk') ↔
      (∀ field ∈ m.fieldsOf walk.addr, FieldInside m L walk.addr field) ∧
        EndsAt m L (m.stringsOf walk.addr) (walk'.addr - 2) ∧ 2 ≤ walk'.addr ∧
        walk'.visited = walk.visited ++ [walk.addr] ∧
        Meets (Inside L) m (printStructure walk.addr (m walk.addr) walk.supported)
          walk'.supported := by
  obtain ⟨supported, hprint⟩ :=
    exists_yields_printStructure (m := m) (L := L) walk.addr walk.supported
  rw [walkTurn, if_pos h, (yields_byte _).meets_bind, and_iff_right h, hprint.meets_bind,
    (yields_byte _).meets_bind, hprint walk'.supported, Scan.meets_bind]
  constructor
  · rintro ⟨hfields, -, e, hends, hdone⟩
    obtain rfl := Sum.inl.inj (meets_pure.mp hdone)
    exact ⟨hfields, meets_endLoop.mp hends, Nat.le_add_left 2 e, rfl, rfl, hfields⟩
  · rintro ⟨hfields, hends, hle, hvisited, rfl, -⟩
    have hinside := hends.inside
    have hle' := hends.le
    rw [Memory.stringsOf] at hle'
    refine ⟨hfields, by omega, _, meets_endLoop.mpr hends, meets_pure.mpr ?_⟩
    rw [Nat.sub_add_cancel hle, ← hvisited]

/-- **The loop ends where the table is a chain**, having come to its
structures. -/
theorem exists_meets_walkLoop (visited : List ℕ) (start : Walk) :
    (∃ last, Meets (Inside L) m (.loop (walkTurn L) start) last ∧ last.visited = visited) ↔
      ∃ structures, Chain m L start.addr structures ∧ visited = start.visited ++ structures := by
  constructor
  · rintro ⟨last, hmeets, rfl⟩
    rw [meets_loop] at hmeets
    induction hmeets with
    | @done walk last hturn =>
      rw [walkTurn] at hturn
      split at hturn
      · obtain ⟨type, -, hturn⟩ := Scan.meets_bind.mp hturn
        obtain ⟨supported, -, hturn⟩ := Scan.meets_bind.mp hturn
        obtain ⟨length, -, hturn⟩ := Scan.meets_bind.mp hturn
        obtain ⟨stop, -, hturn⟩ := Scan.meets_bind.mp hturn
        cases meets_pure.mp hturn
      · rename_i hpast
        obtain rfl := Sum.inr.inj (meets_pure.mp hturn)
        exact ⟨[], .done (Nat.le_of_not_lt hpast), (List.append_nil _).symm⟩
    | @more walk next last hturn _ ih =>
      have hlt : walk.addr < L := by
        by_contra hpast
        rw [walkTurn, if_neg hpast] at hturn
        cases meets_pure.mp hturn
      obtain ⟨hfields, hends, hle, hvisited, -⟩ := (meets_walkTurn hlt).mp hturn
      obtain ⟨structures, hchain, heq⟩ := ih
      refine ⟨walk.addr :: structures, .more hlt hfields hends ?_, ?_⟩
      · rwa [Nat.sub_add_cancel hle]
      · rw [heq, hvisited, List.append_assoc, List.singleton_append]
  · rintro ⟨structures, hchain, rfl⟩
    -- by induction on the chain, from any state of the loop at its start
    suffices hloop : ∀ a structures, Chain m L a structures → ∀ start : Walk, start.addr = a →
        ∃ last, Meets (Inside L) m (.loop (walkTurn L) start) last ∧
          last.visited = start.visited ++ structures from hloop _ _ hchain start rfl
    intro a structures hchain
    induction hchain with
    | @done a hpast =>
      rintro start rfl
      refine ⟨start, meets_loop_succ.mpr (Or.inl ?_), (List.append_nil _).symm⟩
      rw [walkTurn, if_neg (Nat.not_lt.mpr hpast)]
      exact meets_pure.mpr rfl
    | @more a e structures hlt hfields hends _ ih =>
      rintro start rfl
      obtain ⟨supported, hprint⟩ :=
        exists_yields_printStructure (m := m) (L := L) start.addr start.supported
      obtain ⟨last, hlast, hvisited⟩ := ih ⟨e + 2, start.visited ++ [start.addr], supported⟩ rfl
      refine ⟨last, meets_loop_succ.mpr (Or.inr ⟨_, (meets_walkTurn hlt).mpr ⟨hfields, ?_,
        Nat.le_add_left 2 e, rfl, (hprint _).mpr ⟨rfl, hfields⟩⟩, hlast⟩), ?_⟩
      · rwa [Nat.add_sub_cancel]
      · rw [hvisited, List.append_assoc, List.singleton_append]

/-! ## Tables -/

/-- The type of the structure that ends a table. -/
def endOfTable : UInt8 := 127

/-- **The structures of a well-formed table**, up to the one that ends it or
to its end. -/
inductive Table (m : Memory) (L : ℕ) : ℕ → List ℕ → Prop
  | stop {a : ℕ} (h : L ≤ a) : Table m L a []
  | last {a e : ℕ} (h : a < L) (ends : EndsAt m L (m.stringsOf a) e) (type : m a = endOfTable) :
      Table m L a [a]
  | more {a e : ℕ} {structures : List ℕ} (h : a < L) (ends : EndsAt m L (m.stringsOf a) e)
      (type : m a ≠ endOfTable) (rest : Table m L (e + 2) structures) :
      Table m L a (a :: structures)

/-- Nothing comes behind the structure that ends a table. -/
def EndsLast (m : Memory) (structures : List ℕ) : Prop :=
  ∀ before a after, structures = before ++ a :: after → m a = endOfTable → after = []

theorem endsLast_cons {structures : List ℕ} :
    EndsLast m (a :: structures) ↔
      (m a = endOfTable → structures = []) ∧ EndsLast m structures := by
  constructor
  · intro h
    refine ⟨h [] a structures rfl, fun before b after heq => ?_⟩
    exact h (a :: before) b after (by rw [heq, List.cons_append])
  · rintro ⟨hfirst, hrest⟩ before b after heq htype
    obtain ⟨rfl, htail⟩ | ⟨before, rfl, htail⟩ := List.cons_eq_append_iff.mp heq
    · obtain ⟨rfl, rfl⟩ := List.cons.inj htail
      exact hfirst htype
    · exact hrest before b after htail htype

theorem Table.eq_nil {others : List ℕ} (h : Table m L a others) (hpast : L ≤ a) :
    others = [] := by
  cases h with
  | stop _ => rfl
  | last hlt _ _ => omega
  | more hlt _ _ _ => omega

/-- A chain is a table's structures exactly where it does not go on behind
its end. -/
theorem Chain.table_iff {structures : List ℕ} (h : Chain m L a structures) :
    (∀ others, Table m L a others → structures = others) ↔ EndsLast m structures := by
  induction h with
  | @done a hpast =>
    refine iff_of_true (fun others htable => (htable.eq_nil hpast).symm)
      fun before b after heq => ?_
    simp at heq
  | @more a e structures hlt _ hends hchain ih =>
    rw [endsLast_cons, ← ih]
    by_cases htype : m a = endOfTable
    · rw [imp_iff_right htype]
      constructor
      · intro h
        obtain ⟨-, rfl⟩ := List.cons.inj (h [a] (.last hlt hends htype))
        refine ⟨rfl, fun others htable => ?_⟩
        cases hchain with
        | done hpast => exact (htable.eq_nil hpast).symm
      · rintro ⟨rfl, -⟩ others htable
        cases htable with
        | stop hpast => omega
        | last _ _ _ => rfl
        | more _ _ hne _ => exact absurd htype hne
    · refine Iff.trans ⟨fun h others htable => ?_, fun h others htable => ?_⟩
        (and_iff_right fun heq => absurd heq htype).symm
      · exact (List.cons.inj (h (a :: others) (.more hlt hends htype htable))).2
      · cases htable with
        | stop hpast => omega
        | last _ _ heq => exact absurd heq htype
        | more _ hends' _ hrest =>
          rw [hends'.unique hends] at hrest
          rw [h _ hrest]

/-! ## The string set of a structure -/

/-- The strings between the formatted area of a structure and its end. -/
def Memory.strings (m : Memory) (a e : ℕ) : List (List UInt8) :=
  if e = a then [] else (m.bytes a e).splitOn 0

/-- The string with a number: the numbers start at one. -/
def Memory.stringAt (m : Memory) (a e i : ℕ) : List UInt8 :=
  if i = 0 then [] else (m.strings a e).getD (i - 1) []

/-- **The number is no larger than that of the nulls of the string set**, or
what `get_string` comes to behind the structure is inside and empty. -/
def NumberWithin (m : Memory) (L a e i : ℕ) : Prop :=
  i ≤ (m.bytes a (e + 2)).count 0 ∨
    (m.textsFrom L (e + 2))[i - 1 - (m.bytes a (e + 2)).count 0]? = some []

theorem EndsAt.count (h : EndsAt m L a e) :
    (m.bytes a (e + 2)).count 0 = ((m.bytes a e).splitOn 0).length + 1 := by
  rw [length_splitOn, bytes_append h.le (Nat.le_add_right e 2), bytes_cons (a := e) (by omega),
    bytes_cons (a := e + 1) (by omega), bytes_nil (a := e + 1 + 1) (by omega), h.null, h.null_succ,
    List.count_append]
  rfl

/-- The texts from the formatted area on: the strings, the empty text of the
second null, and what is behind the structure. -/
theorem EndsAt.textsFrom (h : EndsAt m L a e) :
    m.textsFrom L a = (m.bytes a e).splitOn 0 ++ [] :: m.textsFrom L (e + 2) := by
  have hle := h.le
  have hinside := h.inside
  have hsplit : m.bytes a L = m.bytes a e ++ 0 :: 0 :: m.bytes (e + 2) L := by
    rw [bytes_append h.le (by omega), bytes_cons (a := e) (by omega),
      bytes_cons (a := e + 1) (by omega), h.null, h.null_succ]
  rw [Memory.textsFrom, hsplit, texts_append, texts_cons]
  rfl

/-- A list's entry, or the empty one, in that list with more behind it. -/
theorem getElem?_append_cons_iff (first rest : List (List UInt8)) (j : ℕ) :
    (first ++ [] :: rest)[j]? = some (first.getD j []) ↔
      j ≤ first.length ∨ rest[j - (first.length + 1)]? = some [] := by
  obtain hlt | rfl | hgt := Nat.lt_trichotomy j first.length
  · rw [List.getElem?_append_left hlt, List.getD_eq_getElem?_getD, List.getElem?_eq_getElem hlt]
    exact iff_of_true rfl (Or.inl (Nat.le_of_lt hlt))
  · rw [List.getElem?_append_right (Nat.le_refl _), Nat.sub_self, List.getD_eq_getElem?_getD,
      List.getElem?_eq_none (Nat.le_refl _)]
    exact iff_of_true rfl (Or.inl (Nat.le_refl _))
  · obtain ⟨k, rfl⟩ := Nat.exists_eq_add_of_lt hgt
    have hindex : first.length + k + 1 - first.length = k + 1 := by omega
    have hindex' : first.length + k + 1 - (first.length + 1) = k := by omega
    have hnone : first[first.length + k + 1]? = none := List.getElem?_eq_none (by omega)
    rw [List.getElem?_append_right (by omega), hindex, hindex', List.getElem?_cons_succ,
      List.getD_eq_getElem?_getD, hnone, Option.getD_none]
    exact (or_iff_right (by omega)).symm

/-- No strings and one empty text look the same. -/
theorem getD_strings (m : Memory) (a e j : ℕ) :
    (m.strings a e).getD j [] = ((m.bytes a e).splitOn 0).getD j [] := by
  rw [Memory.strings]
  split
  · rename_i heq
    rw [bytes_nil (Nat.le_of_eq heq), List.splitOn_nil]
    cases j <;> rfl
  · rfl

/-- **`get_string` gives the string of its own structure exactly where** the
number is within. -/
theorem EndsAt.meets_readString_iff (h : EndsAt m L (m.stringsOf structure_) e) :
    Meets (Inside L) m (readString structure_ i) (m.stringAt (m.stringsOf structure_) e i) ↔
      NumberWithin m L (m.stringsOf structure_) e i := by
  have hinside : structure_ + 1 < L := by
    have hle := h.le
    have hend := h.inside
    rw [Memory.stringsOf] at hle
    omega
  rw [meets_readString, and_iff_right hinside, NumberWithin, Memory.stringAt]
  by_cases hzero : i = 0
  · rw [if_pos hzero, if_pos hzero, hzero]
    exact iff_of_true rfl (Or.inl (Nat.zero_le _))
  rw [if_neg hzero, if_neg hzero, h.count, h.textsFrom, getD_strings, getElem?_append_cons_iff]
  exact or_congr_left (by omega)

/-! ## The result -/

/-- **The walk over a table, and a string of each of its structures**: it
ends, reads only inside the table, comes to the structures of a
well-formed one and to no more, and `get_string` gives each of them its
own string. -/
def WalksTable (m : Memory) (L i : ℕ) : Prop :=
  ∃ last, Meets (Inside L) m (walk L) last ∧
    (∀ structures, Table m L 0 structures → last.visited = structures) ∧
    ∀ structure_ ∈ last.visited, ∀ e, EndsAt m L (m.stringsOf structure_) e →
      Meets (Inside L) m (readString structure_ i) (m.stringAt (m.stringsOf structure_) e i)

/-- **The walk is right exactly where** the table is a chain of complete
structures, nothing comes behind the one that ends it, and the number is
within the string set of each. -/
theorem walksTable_iff (m : Memory) (L i : ℕ) :
    WalksTable m L i ↔
      ∃ structures, Chain m L 0 structures ∧ EndsLast m structures ∧
        ∀ structure_ ∈ structures, ∀ e, EndsAt m L (m.stringsOf structure_) e →
          NumberWithin m L (m.stringsOf structure_) e i := by
  have hloop := fun visited => exists_meets_walkLoop (m := m) (L := L) visited {}
  constructor
  · rintro ⟨last, hmeets, hvisits, hstrings⟩
    obtain ⟨structures, hchain, heq⟩ := (hloop last.visited).mp ⟨last, hmeets, rfl⟩
    rw [List.nil_append] at heq
    rw [heq] at hvisits hstrings
    exact ⟨structures, hchain, hchain.table_iff.mp hvisits, fun structure_ hmem e hends =>
      hends.meets_readString_iff.mp (hstrings structure_ hmem e hends)⟩
  · rintro ⟨structures, hchain, hlast, hwithin⟩
    obtain ⟨last, hmeets, heq⟩ := (hloop structures).mpr ⟨structures, hchain, rfl⟩
    refine ⟨last, hmeets, ?_, ?_⟩
    · rw [heq]
      exact hchain.table_iff.mpr hlast
    · rw [heq]
      exact fun structure_ hmem e hends =>
        hends.meets_readString_iff.mpr (hwithin structure_ hmem e hends)

/-- A table of one structure, which ends it and has no strings. -/
def shortTable : Memory := fun i => [0x7f, 4, 0, 0, 0, 0].getD i 0x61

theorem endsAt_shortTable : EndsAt shortTable 6 (shortTable.stringsOf 0) 4 := by
  refine ⟨by decide, by decide, by decide, by decide, fun j hle hlt => ?_⟩
  rw [show shortTable.stringsOf 0 = 4 by decide] at hle
  omega

/-- Its fourth string is looked for behind the table. -/
theorem not_walksTable_shortTable : ¬WalksTable shortTable 6 4 := by
  rintro ⟨last, -, hvisits, hstrings⟩
  have hvisited := hvisits [0] (.last (by decide) endsAt_shortTable (by decide))
  rw [hvisited] at hstrings
  have hwithin := endsAt_shortTable.meets_readString_iff.mp
    (hstrings 0 List.mem_cons_self 4 endsAt_shortTable)
  have hrest : shortTable.textsFrom 6 6 = [] := by decide
  obtain hle | hget := hwithin
  · exact absurd hle (by decide)
  · rw [hrest] at hget
    cases hget

end Smbios

end Uberos
