import RelQuery.Proofs.Join.Nested

/-!
# RelQuery.Proofs.Join.Lookup

**Looking up is exact.**

A join that looks its right-hand rows up does not test its condition on what it finds, so a lookup
has to find the matching rows and nothing else. `Matcher.Exact` says that of a matcher, without a
join around it. `Matcher.ofLookup` gives such a matcher from every right-hand side that can be
stored (`exists_ofLookup`), whatever order it was declared in, as long as that order holds or is
verified: an order that does not serve the join, or that verification refutes, is not used. A
right-hand side that cannot be stored is one whose stream has an error or a row of a foreign schema,
and then this error is what comes out (`ofLookup_of_store`).
-/

namespace RelQuery

namespace Matcher

/-- The matcher has these rows in some order, is believed without testing them, and has exactly the
matching rows as the candidates for a left-hand row. -/
structure Exact (m : Matcher) (k : JoinKeys) (rows : List Row) : Prop where
  isExact : m.isExact = true
  perm : m.rows.Perm rows
  /-- The candidates are the positions of the rows that match. -/
  candidates : ∀ left, ∃ start stop, m.candidates left = .ok (start, stop) ∧
    ∀ i, start ≤ i ∧ i < stop ↔ ∃ right, m.rows[i]? = some right ∧ k.matched left right = true

variable {k : JoinKeys} {left right : Schema} {pairs : List (String × String)}
variable {r : Relation} {verify : Bool}

/-- A lookup in a table whose order holds and serves the join is exact. -/
theorem exact_lookup {t : SortedTable} {rows : List Row} (hresolved : k.Resolved left right)
    (hfits : t.base.schema.fits right = true) (hserves : k.Serves t.keys) (hordered : t.Ordered)
    (hperm : t.base.rows.Perm rows) : (lookup t (probeFor t.keys k)).Exact k rows where
  isExact := rfl
  perm := hperm
  candidates := by
    intro l
    obtain ⟨start, stop, hcandidates, hexact⟩ :=
      candidates_lookup hresolved hfits hserves hordered l
    refine ⟨start, stop, hcandidates, fun i => ⟨fun hin => ?_, ?_⟩⟩
    · have hi : i < t.base.rows.length := Nat.lt_of_lt_of_le hin.2 (candidates_le hcandidates)
      have hrow := List.getElem?_eq_getElem hi
      exact ⟨_, hrow, (hexact i _ hrow).mp hin⟩
    · rintro ⟨r, hrow, hmatched⟩
      exact (hexact i r hrow).mpr hmatched

/-- A stored right-hand side can be looked up, and the lookup is exact. -/
theorem exists_ofLookup {t : Table} (hresolved : k.Resolved left right)
    (htrust : Trustworthy k verify r) (hstore : r.store = .ok t)
    (hfits : t.schema.fits right = true) :
    ∃ m, ofLookup r k verify = .ok m ∧ m.Exact k t.rows := by
  obtain ⟨s, hsorted, hserves, hfits, hperm, hordered⟩ :=
    exists_sortedFor_of_store hresolved verify hstore hfits
  refine ⟨_, ?_, exact_lookup hresolved hfits hserves (hordered htrust) hperm⟩
  rw [ofLookup, hsorted]
  rfl

/-- **Looking up is exact.** Let the columns of an equi-join be found in two schemas, and let the
right-hand side fit the second of them. If it is declared to be sorted, by any columns, this has to
be true or to be verified. An error that it yields is the error of the lookup, and so is, when there
is none, the first row of a foreign schema. Otherwise the lookup has all of its rows and finds for
every left-hand row exactly those that match. A null on either side matches nothing. -/
theorem ofLookup_exact (hkeys : JoinKeys.resolve left right pairs = .ok k)
    (hfits : r.schema.fits right = true)
    (htrust : ∀ t, r = .sorted t → verify = true ∨ t.Ordered) :
    (∀ e, firstError? r.items = some e → ofLookup r k verify = .error e) ∧
    (∀ rows, Stream.gather r.items = .ok rows →
      (∀ i actual, misfit? r.schema rows = some (i, actual) → ofLookup r k verify =
        .error (.foreignRow i r.schema.name actual.render r.schema.render)) ∧
      (misfit? r.schema rows = none → ∃ m, ofLookup r k verify = .ok m ∧ m.Exact k rows)) ∧
    ∀ (l r : Row) (p : Nat × Nat), p ∈ k.left.zip k.right →
      (l.cell p.1).isNull = true ∨ (r.cell p.2).isNull = true → k.matched l r = false := by
  refine ⟨fun e he => ofLookup_of_store (store_eq_error he), fun rows hrows => ⟨?_, ?_⟩, ?_⟩
  · intro i actual hmisfit
    exact ofLookup_of_store (store_of_misfit hrows hmisfit)
  · intro hnone
    obtain ⟨t, hstore, rfl, hschema⟩ := exists_store hrows (misfit?_eq_none_iff.mp hnone)
    exact exists_ofLookup (JoinKeys.resolve_resolved hkeys) (trustworthy_of_declared htrust) hstore
      (hschema ▸ hfits)
  · intro l r p hp hnull
    rw [Bool.eq_false_iff]
    intro hmatched
    obtain ⟨hl, hr, -⟩ := JoinKeys.matched_iff.mp hmatched p hp
    simp [hl, hr] at hnull

/-- Pickers, each with the row and the plot to work in; the row may be open. -/
def pickers : Schema :=
  ⟨"pickers", [⟨"row", .int32, true, .position 0⟩, ⟨"plot", .int32, false, .position 1⟩]⟩

/-- Trees, each in a row of a plot; the row may be unknown. -/
def trees : Schema :=
  ⟨"trees", [⟨"plot", .int32, false, .position 0⟩, ⟨"row", .int32, true, .position 1⟩,
    ⟨"age", .int32, false, .position 2⟩]⟩

/-- Trees by row from the far end, then by plot, then by age from the oldest. The order is longer
than the key of a picker, and has its columns the other way round. -/
def orchard : SortedTable where
  base := ⟨trees, [
    ⟨trees, [.int32 1, .int32 5, .int32 9], rfl⟩, ⟨trees, [.int32 1, .int32 5, .int32 2], rfl⟩,
    ⟨trees, [.int32 2, .int32 5, .int32 4], rfl⟩, ⟨trees, [.int32 1, .null, .int32 7], rfl⟩],
    by decide⟩
  keys := [⟨"row", true⟩, ⟨"plot", false⟩, ⟨"age", true⟩]
  order := ⟨[(1, true), (0, false), (2, true)]⟩
  resolved := rfl

/-- The orchard is looked up as it stands. A stream that breaks off cannot be looked up. -/
theorem ofLookup_exact_orchard :
    ∃ k, JoinKeys.resolve pickers trees [("plot", "plot"), ("row", "row")] = .ok k ∧
      (∃ m, ofLookup (.sorted orchard) k false = .ok m ∧ m.Exact k orchard.base.rows) ∧
      ofLookup (.stream ⟨trees, [.error .noInput]⟩) k false = .error .noInput := by
  obtain ⟨k, hkeys⟩ :
      ∃ k, JoinKeys.resolve pickers trees [("plot", "plot"), ("row", "row")] = .ok k := ⟨_, rfl⟩
  have hordered : orchard.Ordered := SortedTable.isOrdered_iff.mp (by decide)
  have hsorted := @ofLookup_exact k pickers trees _ (.sorted orchard) false hkeys
    trees.fits_refl fun t ht => Or.inr (Relation.sorted.inj ht ▸ hordered)
  have hstream := @ofLookup_exact k pickers trees _ (.stream ⟨trees, [.error .noInput]⟩) false hkeys
    trees.fits_refl fun t ht => by simp at ht
  refine ⟨k, hkeys, ?_, hstream.1 .noInput rfl⟩
  refine (hsorted.2.1 orchard.base.rows (gather_of_store rfl)).2 ?_
  exact misfit?_eq_none_iff.mpr orchard.base.rows_fit

end Matcher

end RelQuery
