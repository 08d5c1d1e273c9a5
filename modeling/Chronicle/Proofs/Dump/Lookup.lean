import Chronicle.Dump.Basic
import Chronicle.Proofs.Interpreter.Reach
import Chronicle.Proofs.Store.Rendering

/-!
# Finding an attribute in a dump

A dump has a record for each attribute, and its records are found by the texts of their paths. The
records are sorted by these texts, and records with the same text stay in order of creation
(`Dump.filter_mergeSort`), so what is found at a path is the record of the attribute that was created
first among those with that text (`Dump.exists_finds`).

Usually this is the attribute that was meant. But the text of a path tells only the pieces into
which slashes cut its names, and names come from fields of events and from values, which may hold
slashes: `kworker/0` below `Comms` is found where `0` below `Comms/kworker` is looked for
(`Schema.finds_another`). Where the text is that of one attribute alone, as it is when no name holds
a slash, its own record is found (`Schema.faithful_capture`).
-/

namespace Chronicle

namespace Dump

/-- To sort by a text leaves the items with one text in their order. -/
theorem filter_mergeSort {α : Type} (key : α → String) (items : List α) (text : String) :
    (items.mergeSort fun a b => decide (key a ≤ key b)).filter (key · == text) =
      items.filter (key · == text) := by
  have htrans : ∀ a b c : α, decide (key a ≤ key b) = true → decide (key b ≤ key c) = true →
      decide (key a ≤ key c) = true := by
    intro a b c hab hbc
    exact decide_eq_true (String.le_trans (of_decide_eq_true hab) (of_decide_eq_true hbc))
  have htotal : ∀ a b : α, (decide (key a ≤ key b) || decide (key b ≤ key a)) = true := by
    intro a b
    simpa using String.le_total (key a) (key b)
  have halike : (items.filter (key · == text)).Pairwise fun a b => decide (key a ≤ key b) = true := by
    refine List.pairwise_iff_forall_sublist.mpr fun {a b} hab => ?_
    have ha := List.mem_filter.mp (hab.subset List.mem_cons_self)
    have hb := List.mem_filter.mp (hab.subset (List.mem_cons_of_mem _ List.mem_cons_self))
    rw [beq_iff_eq.mp ha.2, beq_iff_eq.mp hb.2]
    exact decide_eq_true (Std.le_refl text)
  -- The items with the text stand in the sorted list in their order, and there are no others.
  have hsub := (List.sublist_mergeSort htrans htotal halike List.filter_sublist).filter
    (key · == text)
  have htwice : (items.filter (key · == text)).filter (key · == text) =
      items.filter (key · == text) := by simp
  rw [htwice] at hsub
  exact (hsub.eq_of_length ((List.mergeSort_perm items _).filter _).length_eq.symm).symm

/-- What is found in a dump of a store: the record of the first attribute with the text. -/
theorem attribute?_capture (s : Store) (r : Report) (generatedAt path : String) :
    (capture s r generatedAt).attribute? path =
      (s.tree.quarks.find? fun q => s.tree.pathText q == path).map s.toRecord := by
  rw [attribute?, capture, ← List.head?_filter, filter_mergeSort, List.head?_filter, List.find?_map]
  rfl

/-- Where the path of `q` is looked for, the record of `p` is found: of all attributes whose paths
have that text `p` was created first. -/
structure Finds (d : Dump) (s : Store) (q p : Quark) : Prop where
  contains : s.tree.contains p = true
  alike : s.tree.pathText p = s.tree.pathText q
  first : ∀ o, s.tree.contains o = true → s.tree.pathText o = s.tree.pathText q → p ≤ o
  found : d.attribute? (s.tree.pathText q) = some (s.toRecord p)

/-- Where the path of an attribute is looked for, a record is found. -/
theorem exists_finds (s : Store) (r : Report) (generatedAt : String) {q : Quark}
    (hq : s.tree.contains q = true) : ∃ p, (capture s r generatedAt).Finds s q p := by
  obtain ⟨i, hi, rfl⟩ := Tree.contains_iff.mp hq
  let alike : Nat → Bool := fun j =>
    s.tree.pathText (Int.ofNat j) == s.tree.pathText (Int.ofNat i)
  have hsome : ((List.range s.tree.size).find? alike).isSome = true :=
    List.find?_isSome.mpr ⟨i, List.mem_range.mpr hi, beq_self_eq_true _⟩
  obtain ⟨j, hj⟩ := Option.isSome_iff_exists.mp hsome
  obtain ⟨halike, hmem, hbefore⟩ := List.find?_range_eq_some.mp hj
  refine ⟨Int.ofNat j, ?_, beq_iff_eq.mp halike, fun o ho heq => ?_, ?_⟩
  · exact Tree.contains_ofNat.mpr (List.mem_range.mp hmem)
  · obtain ⟨k, -, rfl⟩ := Tree.contains_iff.mp ho
    refine Int.ofNat_le.mpr (Nat.not_lt.mp fun hkj => ?_)
    have hk : alike k = true := beq_iff_eq.mpr heq
    simpa [hk] using hbefore k hkj
  · rw [attribute?_capture, Tree.quarks, List.find?_map]
    exact congrArg (fun found => (found.map Int.ofNat).map s.toRecord) hj

end Dump

/-- What the paths of a dump tell of the attributes of a store.

* `found`: at the path of an attribute the record of the first attribute with that text is found.
* `alike`: two attributes have one text if slashes cut the names on their paths into the same
  pieces.
* `slash`: if they are two, one of these names holds a slash.
* `own`: where no other attribute has its text, the record of the attribute itself is found. -/
structure Dump.Faithful (d : Dump) (s : Store) : Prop where
  found : ∀ q, s.tree.contains q = true → ∃ p, d.Finds s q p
  alike : ∀ p q, s.tree.contains p = true → s.tree.contains q = true →
    (s.tree.pathText p = s.tree.pathText q ↔ s.tree.segments p = s.tree.segments q)
  slash : ∀ p q, s.tree.contains p = true → s.tree.contains q = true → p ≠ q →
    s.tree.pathText p = s.tree.pathText q →
      ∃ name ∈ s.tree.path p ++ s.tree.path q, '/' ∈ name.toList
  own : ∀ q, s.tree.contains q = true →
    (∀ p, s.tree.contains p = true → s.tree.pathText p = s.tree.pathText q → p = q) →
      d.attribute? (s.tree.pathText q) = some (s.toRecord q)

namespace Schema

variable {schema : Schema}

/-- **A dump finds an attribute by its path, unless one that was created before has a path of the
same text.** Two paths have the same text only if a name on one of them holds a slash. -/
theorem faithful_capture (h : schema.Accepted) (events : List Event) (r : Report)
    (generatedAt : String) :
    (Dump.capture (schema.run {} events).2 r generatedAt).Faithful (schema.run {} events).2 := by
  have hs : (schema.run {} events).2.Reachable := reachable_run (accepted_iff.mp h) .empty events
  refine ⟨fun q hq => Dump.exists_finds _ r generatedAt hq, fun p q hp hq => ?_,
    fun p q hp hq hne heq => ?_, fun q hq hown => ?_⟩
  · exact Tree.pathText_eq_iff (hs.path_ne_nil hp) (hs.path_ne_nil hq)
  · refine Classical.byContradiction fun hnone => hne (hs.pathText_inj hq hp ?_ heq)
    exact fun name hname hslash => hnone ⟨name, hname, hslash⟩
  · obtain ⟨p, hp⟩ := Dump.exists_finds _ r generatedAt hq
    rw [hp.found, hown p hp.contains hp.alike]

/-- A name holds a slash, but no other attribute has a path of that text, so its own record is
found. -/
theorem faithful_capture_of_alone :
    let comm : List Locator := [.constant "Comms", .eventField "comm"]
    let schema : Schema := {
      handlers := [⟨.ofText "switch", [.assign comm ⟨.eventField "tid" none, false, .none⟩]⟩] }
    let events : List Event := [
      { name := "switch", timestamp := 1
        fields := [("comm", .text "kworker/0"), ("tid", .int 7)] },
      { name := "switch", timestamp := 2, fields := [("comm", .text "bash"), ("tid", .int 9)] }]
    let s := (schema.run {} events).2
    let d := Dump.capture s (schema.run {} events).1 "now"
    schema.Accepted ∧ d.Faithful s ∧ s.tree.contains 1 = true ∧
      d.attribute? "Comms/kworker/0" = some ⟨"Comms/kworker/0", .int 7, some 1, []⟩ := by
  intro comm schema events s d
  have h : schema.Accepted := accepted_iff.mpr rfl
  have hfaithful : d.Faithful s := faithful_capture h events _ "now"
  have hq : s.tree.contains 1 = true := by decide +kernel
  have htext : s.tree.pathText 1 = "Comms/kworker/0" := by decide +kernel
  have halone : ∀ p ∈ s.tree.quarks, s.tree.pathText p = s.tree.pathText 1 → p = 1 := by
    decide +kernel
  have hown : d.attribute? (s.tree.pathText 1) = some (s.toRecord 1) :=
    hfaithful.own 1 hq fun p hp => halone p (Tree.mem_quarks.mpr hp)
  refine ⟨h, hfaithful, hq, ?_⟩
  rw [← htext, hown]
  decide +kernel

/-- What is written at `0` below `Comms/kworker` is not found at its path: there the record of
`kworker/0` below `Comms` is found. -/
theorem finds_another :
    let comm : List Locator := [.constant "Comms", .eventField "comm"]
    let schema : Schema := {
      handlers := [
        ⟨.ofText "switch", [.assign comm ⟨.eventField "tid" none, false, .none⟩]⟩,
        ⟨.ofText "irq", [.assign (comm ++ [.eventField "cpu"]) ⟨.eventName, false, .none⟩]⟩] }
    let events : List Event := [
      { name := "switch", timestamp := 1
        fields := [("comm", .text "kworker/0"), ("tid", .int 7)] },
      { name := "irq", timestamp := 2, source := some 0, fields := [("comm", .text "kworker")] }]
    let s := (schema.run {} events).2
    let d := Dump.capture s (schema.run {} events).1 "now"
    schema.Accepted ∧ s.tree.contains 1 = true ∧ s.tree.contains 3 = true ∧
      s.tree.pathText 1 = "Comms/kworker/0" ∧ s.tree.pathText 3 = "Comms/kworker/0" ∧
      s.ongoing 3 = .text "irq" ∧
      d.attribute? (s.tree.pathText 3) = some ⟨"Comms/kworker/0", .int 7, some 1, []⟩ := by
  intro comm schema events s d
  have h : schema.Accepted := accepted_iff.mpr rfl
  have hfound : d.attribute? (s.tree.pathText 3) =
      (s.tree.quarks.find? fun q => s.tree.pathText q == s.tree.pathText 3).map s.toRecord :=
    Dump.attribute?_capture s _ "now" _
  refine ⟨h, by decide +kernel, by decide +kernel, by decide +kernel, by decide +kernel,
    by decide +kernel, ?_⟩
  rw [hfound]
  decide +kernel

end Schema
end Chronicle
