import RelQuery.Proofs.Pipeline.Built
import RelQuery.Proofs.Row.Named

/-!
# RelQuery.Proofs.Row.Rename

**Renames can be undone, and come in any order.**

All pairs of a rename list apply at once, so a list may exchange names. What it makes of a name is
written as a relation, `Becomes`, that looks at the pairs only as a set: a permuted list has the
same one, and the pairs turned around have its converse. Which lists are accepted is said by that
relation as well (`Renames`). Planning checks two of the conditions and the new names against each
other, and leaves new names that meet old ones to the schema that it makes; `exists_plan_rename_iff`
puts both together.

A rename moves no value: its feeds are the positions of the input, in order.
-/

namespace RelQuery

/-- A column of the first name has the second after the renames: one of them lists both, or none
lists it and its name stays. -/
def Becomes (renames : List (String × String)) (old new : String) : Prop :=
  (old, new) ∈ renames ∨ old ∉ renames.map Prod.fst ∧ new = old

/-- The renames list columns that exist, each once, and leave no two columns with one name. -/
structure Renames (s : Schema) (renames : List (String × String)) : Prop where
  present : ∀ pair ∈ renames, pair.1 ∈ s.names
  once : (renames.map Prod.fst).Nodup
  apart : ∀ a ∈ s.names, ∀ b ∈ s.names, ∀ new,
    Becomes renames a new → Becomes renames b new → a = b

variable {s : Schema} {relation : Option String} {renames renames' : List (String × String)}
  {old new : String}

/-! ### New names -/

theorem Becomes.of_mem (h : ∀ pair, pair ∈ renames' ↔ pair ∈ renames)
    (hbecomes : Becomes renames old new) : Becomes renames' old new := by
  rcases hbecomes with hmem | ⟨hfresh, rfl⟩
  · exact .inl ((h _).mpr hmem)
  · refine .inr ⟨fun hmem => hfresh ?_, rfl⟩
    obtain ⟨pair, hpair, rfl⟩ := List.mem_map.mp hmem
    exact List.mem_map_of_mem ((h _).mp hpair)

/-- Where no column is listed twice, each has one new name. -/
theorem Becomes.unique (honce : (renames.map Prod.fst).Nodup) {new' : String}
    (h : Becomes renames old new) (h' : Becomes renames old new') : new = new' := by
  rcases h with hmem | ⟨hfresh, rfl⟩
  · rcases h' with hmem' | ⟨hfresh, -⟩
    · exact congrArg Prod.snd (List.inj_on_of_nodup_map honce hmem hmem' rfl)
    · exact absurd (List.mem_map_of_mem hmem) hfresh
  · rcases h' with hmem' | ⟨-, rfl⟩
    · exact absurd (List.mem_map_of_mem hmem') hfresh
    · rfl

/-- Renames that leave columns apart are undone by their pairs turned around. -/
theorem Becomes.swap (hrenames : Renames s renames) (hold : old ∈ s.names)
    (h : Becomes renames old new) : Becomes (renames.map Prod.swap) new old := by
  rcases h with hmem | ⟨hfresh, rfl⟩
  · exact .inl (List.mem_map.mpr ⟨_, hmem, rfl⟩)
  · refine .inr ⟨fun hmem => ?_, rfl⟩
    -- The name that stayed would also be the new one of a listed column.
    rw [List.map_map] at hmem
    obtain ⟨⟨other, _⟩, hpair, rfl⟩ := List.mem_map.mp hmem
    have hother := hrenames.apart other (hrenames.present _ hpair) _ hold _ (.inl hpair)
      (.inr ⟨hfresh, rfl⟩)
    exact hfresh (hother ▸ List.mem_map_of_mem hpair)

/-- No two renames of an acceptable list have one new name. -/
theorem Renames.nodup_snd (h : Renames s renames) : (renames.map Prod.snd).Nodup := by
  refine List.Nodup.map_on (fun p hp q hq hnew => ?_) (List.Nodup.of_map _ h.once)
  refine List.inj_on_of_nodup_map h.once hp hq ?_
  exact h.apart _ (h.present p hp) _ (h.present q hq) p.2 (.inl hp) (.inl (hnew ▸ hq))

theorem Renames.once_swap (h : Renames s renames) :
    ((renames.map Prod.swap).map Prod.fst).Nodup := by
  rw [List.map_map]
  exact h.nodup_snd

theorem not_renames_iff : ¬Renames s renames ↔
    (∃ pair ∈ renames, pair.1 ∉ s.names) ∨ ¬(renames.map Prod.fst).Nodup ∨
      ∃ a ∈ s.names, ∃ b ∈ s.names, a ≠ b ∧
        ∃ new, Becomes renames a new ∧ Becomes renames b new := by
  constructor
  · intro h
    by_contra hnone
    push Not at hnone
    obtain ⟨hpresent, honce, hapart⟩ := hnone
    refine h ⟨hpresent, honce, fun a ha b hb new hna hnb => ?_⟩
    by_contra hne
    exact hapart a ha b hb hne new hna hnb
  · rintro (⟨pair, hpair, habsent⟩ | htwice | ⟨a, ha, b, hb, hne, new, hna, hnb⟩) h
    · exact habsent (h.present pair hpair)
    · exact htwice h.once
    · exact hne (h.apart a ha b hb new hna hnb)

theorem Renames.perm (h : Renames s renames) (hperm : renames'.Perm renames) :
    Renames s renames' where
  present pair hpair := h.present pair (hperm.mem_iff.mp hpair)
  once := (hperm.map Prod.fst).nodup_iff.mpr h.once
  apart a ha b hb new hna hnb :=
    h.apart a ha b hb new (hna.of_mem fun _ => hperm.mem_iff.symm)
      (hnb.of_mem fun _ => hperm.mem_iff.symm)

namespace RowMap

theorem becomes_newName (renames : List (String × String)) (name : String) :
    Becomes renames name (newName renames name) := by
  rw [newName_eq_lookup]
  cases hlookup : renames.lookup name with
  | none =>
      refine .inr ⟨fun hmem => ?_, rfl⟩
      obtain ⟨pair, hpair, rfl⟩ := List.mem_map.mp hmem
      exact absurd rfl (bne_iff_ne.mp (List.lookup_eq_none_iff.mp hlookup pair hpair))
  | some new =>
      obtain ⟨before, after, rfl, -⟩ := List.lookup_eq_some_iff.mp hlookup
      exact .inl (List.mem_append_right _ List.mem_cons_self)

/-- The new name of a column is the one that it has after the renames. -/
theorem becomes_iff (honce : (renames.map Prod.fst).Nodup) :
    Becomes renames old new ↔ newName renames old = new :=
  ⟨(becomes_newName renames old).unique honce, fun h => h ▸ becomes_newName renames old⟩

theorem newName_perm (hperm : renames'.Perm renames) (honce : (renames.map Prod.fst).Nodup)
    (name : String) : newName renames' name = newName renames name := by
  refine ((becomes_iff honce).mp ?_).symm
  exact (becomes_newName renames' name).of_mem fun _ => hperm.mem_iff.symm

/-- Names turn back into what they were. -/
theorem newName_swap (h : Renames s renames) (hold : old ∈ s.names) :
    newName (renames.map Prod.swap) (newName renames old) = old :=
  (becomes_iff h.once_swap).mp ((becomes_newName renames old).swap h hold)

/-! ### Planning -/

theorem checkRenames_eq_ok_iff : ∀ {renames : List (String × String)} {olds news : List String},
    checkRenames s olds news renames = .ok () ↔
      (∀ pair ∈ renames, pair.1 ∈ s.names) ∧ Unseen olds (renames.map Prod.fst) ∧
        Unseen news (renames.map Prod.snd)
  | [], olds, news => by simp [checkRenames, Unseen]
  | (old, new) :: renames, olds, news => by
      rw [checkRenames, List.forall_mem_cons, List.map_cons, List.map_cons, unseen_cons_iff,
        unseen_cons_iff, bind_eq_ok_iff, ← Schema.exists_require_iff]
      by_cases hold : old ∈ olds
      · simp [hold]
      · by_cases hnew : new ∈ news
        · simp [hold, hnew]
        · simp only [hold, hnew, if_false, not_false_eq_true, true_and, checkRenames_eq_ok_iff,
            exists_and_right, and_assoc]

/-- A schema under new names. -/
def renamed (s : Schema) (relation : Option String) (renames : List (String × String)) : Schema :=
  ⟨relation.getD s.name,
    s.columns.map fun c => ⟨newName renames c.name, c.type, c.nullable, .named c.name⟩⟩

@[simp] theorem names_renamed :
    (renamed s relation renames).names = s.names.map (newName renames) := by
  rw [Schema.names, renamed, List.map_map, Schema.names, List.map_map]
  rfl

/-- What a planned rename is: the list has been checked, and the schema has the new names. -/
theorem plan_rename_inv {m : RowMap} (h : plan s (.rename relation renames) = .ok m) :
    checkRenames s [] [] renames = .ok () ∧ m.schema = renamed s relation renames := by
  obtain ⟨⟨name, outputs⟩, houtputs, h⟩ := bind_eq_ok_iff.mp h
  obtain ⟨schema, hschema, h⟩ := bind_eq_ok_iff.mp h
  obtain ⟨feeds, -, h⟩ := bind_eq_ok_iff.mp h
  obtain rfl := pure_eq_ok_iff.mp h
  obtain ⟨outputs', hrenamed, houtputs⟩ := bind_eq_ok_iff.mp houtputs
  obtain ⟨rfl, rfl⟩ := Prod.mk.inj (pure_eq_ok_iff.mp houtputs)
  obtain ⟨_, hcheck, hrenamed⟩ := bind_eq_ok_iff.mp hrenamed
  obtain rfl := pure_eq_ok_iff.mp hrenamed
  refine ⟨hcheck, (Schema.ofColumns_eq_ok hschema).trans ?_⟩
  rw [renamed, List.map_map]
  rfl

/-- A list that passes the checks is planned if the names that it leaves differ. -/
theorem exists_plan_of_checkRenames (hcheck : checkRenames s [] [] renames = .ok ())
    (hnodup : (renamed s relation renames).names.Nodup) :
    ∃ m, plan s (.rename relation renames) = .ok m := by
  let outputs : List (Column × Option ValueExpr) := s.columns.map fun c =>
    (⟨newName renames c.name, c.type, c.nullable, .named c.name⟩, none)
  have houtputs : outputOf s (.rename relation renames) = .ok (relation.getD s.name, outputs) := by
    rw [outputOf, renamedColumns, hcheck]
    rfl
  have hschema : Schema.ofColumns (relation.getD s.name) (outputs.map Prod.fst) =
      .ok (renamed s relation renames) := by
    have hcolumns : outputs.map Prod.fst = (renamed s relation renames).columns := List.map_map ..
    rw [hcolumns]
    exact Schema.ofColumns_eq_ok_iff.mpr ⟨rfl, hnodup⟩
  obtain ⟨feeds, hfeeds⟩ : ∃ feeds, outputs.mapM (feedOf s) = .ok feeds := by
    refine exists_mapM_eq_ok fun output houtput => ?_
    obtain ⟨c, hc, rfl⟩ := List.mem_map.mp houtput
    obtain ⟨i, hi⟩ := Schema.exists_require_iff.mpr (List.mem_map_of_mem hc)
    exact ⟨.input i, bind_eq_ok_iff.mpr ⟨i, hi, rfl⟩⟩
  refine ⟨⟨.rename relation renames, s, renamed s relation renames, feeds⟩, ?_⟩
  refine bind_eq_ok_iff.mpr ⟨_, houtputs, bind_eq_ok_iff.mpr ⟨_, hschema, ?_⟩⟩
  exact bind_eq_ok_iff.mpr ⟨_, hfeeds, rfl⟩

/-- New names that differ come from names that do. -/
theorem nodup_source_of_plan_rename {m : RowMap}
    (h : plan s (.rename relation renames) = .ok m) : s.names.Nodup := by
  have hnodup := nodup_of_plan h
  rw [(plan_rename_inv h).2, names_renamed] at hnodup
  exact List.Nodup.of_map _ hnodup

theorem renames_of_plan {m : RowMap} (h : plan s (.rename relation renames) = .ok m) :
    Renames s renames := by
  obtain ⟨hcheck, hschema⟩ := plan_rename_inv h
  obtain ⟨hpresent, honce, -⟩ := checkRenames_eq_ok_iff.mp hcheck
  rw [unseen_nil_iff] at honce
  have hnames := nodup_of_plan h
  rw [hschema, names_renamed] at hnames
  refine ⟨hpresent, honce, fun a ha b hb new hna hnb => ?_⟩
  rw [becomes_iff honce] at hna hnb
  exact List.inj_on_of_nodup_map hnames ha hb (hna.trans hnb.symm)

/-- Which lists of renames are accepted. -/
theorem exists_plan_rename_iff (hnodup : s.names.Nodup) (relation : Option String) :
    (∃ m, plan s (.rename relation renames) = .ok m) ↔ Renames s renames := by
  refine ⟨fun ⟨m, h⟩ => renames_of_plan h, fun h => exists_plan_of_checkRenames ?_ ?_⟩
  · rw [checkRenames_eq_ok_iff, unseen_nil_iff, unseen_nil_iff]
    exact ⟨h.present, h.once, h.nodup_snd⟩
  · rw [names_renamed]
    refine List.Nodup.map_on (fun a ha b hb hnew => ?_) hnodup
    exact h.apart a ha b hb _ (becomes_newName renames a) (hnew ▸ becomes_newName renames b)

/-- The pairs turned around are accepted under the new names. -/
theorem renames_swap (h : Renames s renames) (relation : Option String) :
    Renames (renamed s relation renames) (renames.map Prod.swap) := by
  refine ⟨fun pair hpair => ?_, h.once_swap, fun a ha b hb old hna hnb => ?_⟩
  · obtain ⟨⟨old, new⟩, hmem, rfl⟩ := List.mem_map.mp hpair
    rw [names_renamed]
    exact List.mem_map.mpr ⟨old, h.present _ hmem, (becomes_iff h.once).mp (.inl hmem)⟩
  · rw [names_renamed] at ha hb
    obtain ⟨a, ha, rfl⟩ := List.mem_map.mp ha
    obtain ⟨b, hb, rfl⟩ := List.mem_map.mp hb
    rw [becomes_iff h.once_swap, newName_swap h ‹_›] at hna hnb
    rw [hna, hnb]

/-- Names, types and nullability are back where they were. -/
theorem columns_renamed_swap (h : Renames s renames) (back : Option String) :
    (renamed (renamed s relation renames) back (renames.map Prod.swap)).columns.map
        (fun c => (c.name, c.type, c.nullable)) =
      s.columns.map fun c => (c.name, c.type, c.nullable) := by
  rw [renamed, renamed, List.map_map, List.map_map]
  refine List.map_congr_left fun c hc => ?_
  simp only [Function.comp_apply, newName_swap h (List.mem_map_of_mem hc)]

theorem renamed_perm (hperm : renames'.Perm renames) (honce : (renames.map Prod.fst).Nodup) :
    renamed s relation renames' = renamed s relation renames := by
  unfold renamed
  simp only [newName_perm hperm honce]

/-- A rename is undone by its pairs turned around. -/
theorem exists_plan_swap {m : RowMap} (h : plan s (.rename relation renames) = .ok m)
    (back : Option String) :
    ∃ m', plan m.schema (.rename back (renames.map Prod.swap)) = .ok m' ∧
      m'.schema.columns.map (fun c => (c.name, c.type, c.nullable)) =
        s.columns.map fun c => (c.name, c.type, c.nullable) := by
  have hschema := (plan_rename_inv h).2
  have hswap := renames_swap (renames_of_plan h) relation
  rw [← hschema, ← exists_plan_rename_iff (nodup_of_plan h) back] at hswap
  obtain ⟨m', hm'⟩ := hswap
  refine ⟨m', hm', ?_⟩
  rw [(plan_rename_inv hm').2, hschema, columns_renamed_swap (renames_of_plan h)]

/-- A rename does the same in any order of its pairs. -/
theorem exists_plan_perm {m : RowMap} (h : plan s (.rename relation renames) = .ok m)
    (hperm : renames'.Perm renames) :
    ∃ m', plan s (.rename relation renames') = .ok m' ∧ m'.schema = m.schema := by
  have hrenames := renames_of_plan h
  obtain ⟨m', hm'⟩ := (exists_plan_rename_iff (nodup_source_of_plan_rename h) relation).mpr
    (hrenames.perm hperm)
  refine ⟨m', hm', ?_⟩
  rw [(plan_rename_inv h).2, (plan_rename_inv hm').2, renamed_perm hperm hrenames.once]

/-! ### Rows -/

/-- A rename leaves the values of a row as they are. -/
theorem apply_rename {m : RowMap} (h : plan s (.rename relation renames) = .ok m) {row : Row}
    (hrow : row.Suits s) :
    ∃ out, m.apply row = .ok out ∧ out.Suits m.schema ∧ out.values = row.values := by
  obtain ⟨out, hout, hsuits⟩ := exists_apply (by simp) h hrow
  refine ⟨out, hout, hsuits, ?_⟩
  obtain ⟨values, hvalues, hmade⟩ := bind_eq_ok_iff.mp hout
  have hnamed := values_of_supplies hrow (plan_supplies h) hvalues
  have hnodup := nodup_source_of_plan_rename h
  rw [MapForm.entries, List.forall₂_map_left_iff] at hnamed
  rw [← Schema.names_of_fits hrow.fits] at hnodup hnamed
  rw [(Row.holds_of_ofValues hmade).2.2]
  exact Row.values_eq_of_names hnodup hnamed

end RowMap

namespace RelExpr

variable {e : RelExpr}

theorem rename_of_plan {m : RowMap}
    (h : RowMap.plan e.schema (.rename relation renames) = .ok m) :
    e.rename relation renames = .ok (.map e m) :=
  bind_eq_ok_iff.mpr ⟨m, h, rfl⟩

theorem exists_rename_iff (hnodup : e.schema.names.Nodup) (relation : Option String) :
    (∃ e', e.rename relation renames = .ok e') ↔ Renames e.schema renames := by
  rw [← RowMap.exists_plan_rename_iff hnodup relation]
  constructor
  · rintro ⟨e', h⟩
    obtain ⟨m, hm, -⟩ := mapBy_eq_ok h
    exact ⟨m, hm⟩
  · rintro ⟨m, hm⟩
    exact ⟨.map e m, rename_of_plan hm⟩

/-- **Renames can be undone, and come in any order.** A list is rejected exactly if it lists a
column that does not exist or one twice, or leaves two columns with one name. One that is accepted
is undone by its pairs turned around, and can be permuted; values stay as they are. -/
theorem rename_undone (hnodup : e.schema.names.Nodup) (relation : Option String)
    (renames : List (String × String)) :
    ((∃ error, e.rename relation renames = .error error) ↔
      (∃ pair ∈ renames, pair.1 ∉ e.schema.names) ∨ ¬(renames.map Prod.fst).Nodup ∨
        ∃ a ∈ e.schema.names, ∃ b ∈ e.schema.names, a ≠ b ∧
          ∃ new, Becomes renames a new ∧ Becomes renames b new) ∧
    ∀ e', e.rename relation renames = .ok e' → ∃ m, e' = .map e m ∧
      List.Forall₂ (Becomes renames) e.schema.names e'.schema.names ∧
      (∀ row : Row, row.Suits e.schema →
        ∃ out, m.apply row = .ok out ∧ out.Suits e'.schema ∧ out.values = row.values) ∧
      (∀ name, ∃ back, e'.rename name (renames.map Prod.swap) = .ok (.map e' back) ∧
        back.schema.columns.map (fun c => (c.name, c.type, c.nullable)) =
          e.schema.columns.map (fun c => (c.name, c.type, c.nullable)) ∧
        ∀ row : Row, row.Suits e'.schema →
          ∃ out, back.apply row = .ok out ∧ out.Suits back.schema ∧ out.values = row.values) ∧
      ∀ renames' : List (String × String), renames'.Perm renames →
        ∃ e'', e.rename relation renames' = .ok e'' ∧ e''.schema = e'.schema := by
  constructor
  · rw [← not_renames_iff, ← exists_rename_iff hnodup relation]
    cases e.rename relation renames <;> simp
  · intro e' he'
    obtain ⟨m, hplan, rfl⟩ := mapBy_eq_ok he'
    refine ⟨m, rfl, ?_, fun row hrow => RowMap.apply_rename hplan hrow, fun name => ?_,
      fun renames' hperm => ?_⟩
    · rw [RelExpr.schema, (RowMap.plan_rename_inv hplan).2, RowMap.names_renamed,
        List.forall₂_map_right_iff, List.forall₂_same]
      exact fun old _ => RowMap.becomes_newName renames old
    · obtain ⟨back, hback, hcolumns⟩ := RowMap.exists_plan_swap hplan name
      exact ⟨back, rename_of_plan hback, hcolumns,
        fun row hrow => RowMap.apply_rename hback hrow⟩
    · obtain ⟨m', hplan', hschema⟩ := RowMap.exists_plan_perm hplan hperm
      exact ⟨.map e m', rename_of_plan hplan', hschema⟩

/-- A list that exchanges two names. -/
def crossedNames : List (String × String) :=
  [("size", "label"), ("label", "size")]

theorem rename_undone_crossed :
    ∃ e' e'', (scan RowMap.parts).rename none crossedNames = .ok e' ∧
      e'.schema.names = ["label", "size"] ∧
      e'.rename (some "parts") (crossedNames.map Prod.swap) = .ok e'' ∧
      e''.schema.columns.map (fun c => (c.name, c.type, c.nullable)) =
        [("size", .int32, true), ("label", .text, true)] := by
  have hnodup : (scan RowMap.parts).schema.names.Nodup := by decide
  obtain ⟨e', he'⟩ : ∃ e', (scan RowMap.parts).rename none crossedNames = .ok e' := ⟨_, rfl⟩
  obtain ⟨m, rfl, -, -, hundone, -⟩ := (rename_undone hnodup none crossedNames).2 e' he'
  obtain ⟨back, hback, hcolumns, -⟩ := hundone (some "parts")
  refine ⟨_, _, he', ?_, hback, hcolumns⟩
  obtain ⟨m', hplan, hm⟩ := mapBy_eq_ok he'
  obtain rfl := (RelExpr.map.inj hm).2
  rw [RelExpr.schema, (RowMap.plan_rename_inv hplan).2]
  decide

end RelExpr

end RelQuery
