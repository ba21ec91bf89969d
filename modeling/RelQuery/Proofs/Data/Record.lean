import Mathlib.Data.List.Forall2
import Mathlib.Data.List.Nodup
import RelQuery.Document.Codec

/-!
# RelQuery.Proofs.Data.Record

**What records, lists and dictionaries are read as.**

A record is read field by field: `Data.record?_object` says that a field of a map without repeated
keys holds what is looked up under its name, wherever that stands and whatever else the map holds.
A dictionary is read whole, and `Dictionary.ofList_of_perm` says that the order of its entries does
not matter.

What a value may look like in data is given by relations, from the forms of texts and numbers up to
those of lists and dictionaries. `Data.ReadBy` is what is shown of each: the reader of a type gives
back the value of every form. It passes from the reader of a part to the reader of the whole.
-/

namespace RelQuery

variable {α β : Type}

theorem lookup_filter_of_pos {p : String → Bool} {key : String} (hkey : p key = true)
    (fields : List (String × α)) :
    (fields.filter fun field => p field.1).lookup key = fields.lookup key := by
  induction fields with
  | nil => rfl
  | cons field fields ih =>
      obtain ⟨name, a⟩ := field
      by_cases hname : key = name
      · simp [← hname, hkey]
      · cases hp : p name <;> simp [hp, List.lookup_cons, beq_false_of_ne hname, ih]

/-- Among entries with different keys, those with a key are the one that is looked up. -/
theorem filter_eq_lookup (key : String) {fields : List (String × α)}
    (h : (fields.map Prod.fst).Nodup) :
    fields.filter (fun field => field.1 == key) =
      (fields.lookup key).toList.map fun a => (key, a) := by
  induction fields with
  | nil => rfl
  | cons field fields ih =>
      obtain ⟨name, a⟩ := field
      rw [List.map_cons, List.nodup_cons] at h
      by_cases hname : name = key
      · subst hname
        have hrest : fields.filter (fun field => field.1 == name) = [] := by
          refine List.filter_eq_nil_iff.mpr fun field hfield heq => h.1 ?_
          exact List.mem_map.mpr ⟨field, hfield, beq_iff_eq.mp heq⟩
        simp [hrest]
      · simp [List.lookup_cons, hname, beq_false_of_ne (Ne.symm hname), ih h.2]

/-- A traversal finds at every element what it holds. -/
theorem mapM_of_forall₂ {f : α → Option β} {xs : List α} {ys : List β}
    (h : List.Forall₂ (fun x y => f x = some y) xs ys) : xs.mapM f = some ys := by
  induction h with
  | nil => rfl
  | cons hx _ ih => simp [List.mapM_cons, hx, ih]

/-- In a list without repetitions, an element is found at its own position. -/
theorem idxOf?_eq_some_iff_getElem {names : List String} (h : names.Nodup) {name : String} {i : Nat}
    (hi : i < names.length) : names.idxOf? name = some i ↔ name = names[i] := by
  rw [List.idxOf?_eq_some_iff]
  constructor
  · rintro ⟨_, hname, -⟩
    exact hname.symm
  · rintro rfl
    refine ⟨hi, rfl, fun j hj heq => ?_⟩
    exact absurd (h.getElem_inj_iff.mp heq) (Nat.ne_of_lt hj)

namespace Dictionary

theorem perm_put {name : String} {a : α} {entries : List (String × α)}
    (h : name ∉ entries.map Prod.fst) : (put name a entries).Perm ((name, a) :: entries) := by
  induction entries with
  | nil => exact .refl _
  | cons entry entries ih =>
      rw [List.map_cons, List.mem_cons, not_or] at h
      rw [put]
      split
      · exact .refl _
      · rw [if_neg h.1]
        exact ((ih h.2).cons _).trans (.swap _ _ _)

/-- Entries under different names are all in the dictionary. -/
theorem perm_foldl_insert : ∀ {entries : List (String × α)} {d : Dictionary α},
    ((d.entries ++ entries).map Prod.fst).Nodup →
    (entries.foldl (fun d (name, a) => d.insert name a) d).entries.Perm (d.entries ++ entries)
  | [], d, _ => by simp
  | (name, a) :: entries, d, h => by
      have hname : name ∉ d.entries.map Prod.fst := fun hmem => by
        rw [List.map_append, List.map_cons] at h
        exact List.disjoint_of_nodup_append h hmem List.mem_cons_self
      have hput : (d.insert name a).entries.Perm ((name, a) :: d.entries) := perm_put hname
      have hmiddle : ((d.insert name a).entries ++ entries).Perm
          (d.entries ++ (name, a) :: entries) :=
        (hput.append_right entries).trans List.perm_middle.symm
      exact (perm_foldl_insert ((hmiddle.map Prod.fst).nodup_iff.mpr h)).trans hmiddle

/-- A dictionary is made of its entries in any order. -/
theorem ofList_of_perm {entries : List (String × α)} {d : Dictionary α}
    (h : entries.Perm d.entries) : ofList entries = d := by
  have hnodup : (d.entries.map Prod.fst).Nodup := by
    refine List.Pairwise.map _ (fun a b hab => ?_) d.ascending
    exact Std.ne_of_lt hab
  have hperm : (ofList entries).entries.Perm d.entries := by
    refine (perm_foldl_insert (d := empty) ?_).trans h
    exact (h.map Prod.fst).nodup_iff.mpr hnodup
  have hentries : (ofList entries).entries = d.entries := by
    refine hperm.eq_of_pairwise ?_ (ofList entries).ascending d.ascending
    exact fun _ _ _ _ hab hba => absurd (String.lt_trans hab hba) (String.lt_irrefl _)
  cases d
  cases hd : ofList entries
  simp_all

end Dictionary

namespace Data

theorem fieldValue?_eq_lookup {names : List String} {fields : List (String × Data)}
    (hnames : names.Nodup) (hfields : (fields.map Prod.fst).Nodup) {i : Nat}
    (hi : i < names.length) :
    fieldValue? (fields.map fun field => (names.idxOf? field.1, field.2)) i =
      some (fields.lookup names[i]) := by
  have hposition : ∀ field : String × Data,
      (names.idxOf? field.1 == some i) = (field.1 == names[i]) := fun field => by
    rw [Bool.eq_iff_iff, beq_iff_eq, beq_iff_eq, idxOf?_eq_some_iff_getElem hnames hi]
  have hfilter := filter_eq_lookup names[i] hfields
  have hentries : (fields.map fun field => (names.idxOf? field.1, field.2)).filter
      (fun e => e.1 == some i) =
        (fields.lookup names[i]).toList.map fun d => (names.idxOf? names[i], d) := by
    rw [List.filter_map]
    simp only [Function.comp_def, hposition, hfilter, List.map_map]
  rw [fieldValue?, hentries]
  cases fields.lookup names[i] <;> rfl

/-- **A record whose keys differ has in each field what its key holds.** -/
theorem record?_object {names : List String} (hnames : names.Nodup)
    {fields : List (String × Data)} (hfields : (fields.map Prod.fst).Nodup) :
    (object fields).record? names = some (names.map (fields.lookup ·)) := by
  have hkeys : (fields.map fun field => (text field.1, field.2)).mapM
      (fun entry => do return (← fieldIndex? names entry.1, entry.2)) =
        some (fields.map fun field => (names.idxOf? field.1, field.2)) := by
    refine mapM_of_forall₂ ?_
    rw [List.forall₂_map_left_iff, List.forall₂_map_right_iff, List.forall₂_same]
    exact fun _ _ => rfl
  have hvalues : (List.range names.length).mapM
      (fieldValue? (fields.map fun field => (names.idxOf? field.1, field.2))) =
        some (names.map (fields.lookup ·)) := by
    refine mapM_of_forall₂ (List.forall₂_iff_get.mpr ⟨by simp, fun i hi hi' => ?_⟩)
    simpa using fieldValue?_eq_lookup hnames hfields (by simpa using hi)
  simp only [object, record?]
  exact (congrArg (Option.bind · _) hkeys).trans hvalues

theorem size_le_sizeOfEntries {e : Data × Data} {entries : List (Data × Data)}
    (h : e ∈ entries) : e.2.size ≤ sizeOfEntries entries := by
  induction entries with
  | nil => simp at h
  | cons entry entries ih =>
      rw [sizeOfEntries]
      rcases List.mem_cons.mp h with rfl | h
      · omega
      · have := ih h
        omega

/-- A field takes less room than its record. -/
theorem size_lt_of_lookup {fields : List (String × Data)} {key : String} {d : Data}
    (h : fields.lookup key = some d) : d.size < (object fields).size := by
  obtain ⟨before, after, rfl, -⟩ := List.lookup_eq_some_iff.mp h
  rw [object, size]
  refine Nat.lt_succ_of_le (size_le_sizeOfEntries (e := (.text key, d)) ?_)
  exact List.mem_map.mpr ⟨(key, d), by simp, rfl⟩

/-! ### Forms

What a value may look like in data, as relations between the two: a part that may be left out has
several forms. -/

/-- The form that a function writes. -/
def Form (write : α → Data) (a : α) (d : Data) : Prop :=
  d = write a

theorem form_self (write : α → Data) (a : α) : Form write a (write a) :=
  rfl

/-- A form of a value, or the null if there is none. -/
inductive Nullable (form : α → Data → Prop) : Option α → Data → Prop where
  | null : Nullable form none .null
  | given {a : α} {d : Data} : form a d → Nullable form (some a) d

/-- A field with a form of a value; at the default, the field may also be missing. -/
inductive Defaulting (form : α → Data → Prop) (default : α) : α → Option Data → Prop where
  | missing : Defaulting form default default none
  | given {a : α} {d : Data} : form a d → Defaulting form default a (some d)

/-- A list with a form of each value. -/
inductive ListOf (form : α → Data → Prop) : List α → Data → Prop where
  | intro {xs : List α} {ds : List Data} :
    List.Forall₂ (fun d x => form x d) ds xs → ListOf form xs (.list ds)

/-- A map with a form of each value under its name, in any order. -/
inductive DictionaryOf (form : α → Data → Prop) : Dictionary α → Data → Prop where
  | intro {d : Dictionary α} {entries : List (String × α)} {fields : List (String × Data)} :
    entries.Perm d.entries →
    List.Forall₂ (fun field e => field.1 = e.1 ∧ form e.2 field.2) fields entries →
    DictionaryOf form d (.object fields)

/-- A reader that reads back the value of each of these forms. -/
def ReadBy (form : α → Data → Prop) (read : Data → Option α) : Prop :=
  ∀ (a : α) (d : Data), form a d → read d = some a

section Reading

variable {form : α → Data → Prop} {read : Data → Option α}

theorem ReadBy.nullable (h : ReadBy form read) (hnull : read .null = none) :
    ReadBy (Nullable form) (option? read) := by
  intro a d hd
  cases hd with
  | null => rfl
  | @given a _ hd =>
      have hread := h a d hd
      cases d with
      | null => simp [hnull] at hread
      | _ => simp [option?, hread]

theorem ReadBy.defaulting (h : ReadBy form read) {default a : α} {field : Option Data}
    (hfield : Defaulting form default a field) : optional? default read field = some a := by
  cases hfield with
  | missing => rfl
  | given hd => exact h _ _ hd

theorem ReadBy.listOf (h : ReadBy form read) : ReadBy (ListOf form) (listOf? read) := by
  intro xs d hd
  obtain ⟨hforms⟩ := hd
  exact mapM_of_forall₂ (hforms.imp fun d x => h x d)

theorem ReadBy.dictionaryOf (h : ReadBy form read) :
    ReadBy (DictionaryOf form) (dictionary? read) := by
  intro dict d hd
  cases hd with
  | @intro entries fields hperm hforms =>
      have hentries : (fields.map fun field => (text field.1, field.2)).mapM
          (fun entry => do return (← entry.1.text?, ← read entry.2)) = some entries := by
        refine mapM_of_forall₂ (List.forall₂_map_left_iff.mpr (hforms.imp fun field e he => ?_))
        simp [text?, he.1, h e.2 field.2 he.2]
      simp only [dictionary?, object]
      exact (congrArg (Option.bind · _) hentries).trans
        (congrArg some (Dictionary.ofList_of_perm hperm))

end Reading

section Writing

variable {form : α → Data → Prop} {write : α → Data}

theorem nullable_ofOption (h : ∀ a, form a (write a)) :
    ∀ a : Option α, Nullable form a (ofOption write a)
  | none => .null
  | some a => .given (h a)

theorem listOf_map {xs : List α} (h : ∀ x ∈ xs, form x (write x)) :
    ListOf form xs (.list (xs.map write)) := by
  refine .intro (List.forall₂_map_left_iff.mpr ?_)
  exact List.forall₂_same.mpr h

theorem dictionaryOf_ofDictionary (h : ∀ a, form a (write a)) (d : Dictionary α) :
    DictionaryOf form d (ofDictionary write d) := by
  refine .intro (.refl _) (List.forall₂_map_left_iff.mpr ?_)
  exact List.forall₂_same.mpr fun e _ => ⟨rfl, h e.2⟩

end Writing

/-! ### Texts, pairs and words -/

theorem readBy_text : ReadBy (Form .text) text? := by
  intro s d h
  rw [h]
  rfl

theorem readBy_bool : ReadBy (Form .bool) bool? := by
  intro b d h
  rw [h]
  rfl

theorem readBy_pair : ReadBy (Form ofPair) pair? := by
  intro p d h
  rw [h]
  rfl

theorem readBy_texts : ReadBy (Form texts) texts? := by
  intro xs d h
  rw [h]
  exact mapM_of_forall₂ (List.forall₂_map_left_iff.mpr (List.forall₂_same.mpr fun _ _ => rfl))

/-- The form of a number of 64 bits without a sign. -/
def ofWord (n : UInt64) : Data :=
  .int n.toNat

theorem readBy_word : ReadBy (Form ofWord) word? := by
  intro n d h
  have hfits : (n.toNat : Int) ≤ UInt64.size - 1 := by
    have hlt : n.toNat < UInt64.size := n.toNat_lt
    omega
  have hcount : (Data.int n.toNat).count? = some n.toNat := by
    rw [count?, intWithin?, if_pos (by simpa using hfits)]
    rfl
  rw [h, ofWord, word?, hcount]
  exact congrArg some UInt64.ofNat_toNat

end Data

end RelQuery
