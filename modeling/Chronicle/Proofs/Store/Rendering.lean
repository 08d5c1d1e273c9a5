import Chronicle.Proofs.Store.Paths
import Chronicle.Text.Line

/-!
# Paths as texts

Names lead to every attribute of a store that calls lead to (`Store.Reachable.walk?_path`), so
different attributes have different paths (`Store.Reachable.path_inj`). As texts paths may be the
same all the same, since a name may hold the slash that stands between names: the text of a path
tells the pieces into which slashes cut its names, and nothing else (`Tree.pathText_eq_iff`). If no
name holds a slash, the pieces are the names and the text tells the attribute
(`Store.Reachable.pathText_inj`).
-/

namespace Chronicle

/-! ### Pieces of a text -/

namespace Text

theorem piecesOf_eq_splitOn (separator : Char) (cs : List Char) :
    piecesOf separator cs = cs.splitOn separator := by
  induction cs with
  | nil => rfl
  | cons c rest ih =>
      have hsplit : (c :: rest).splitOn separator =
          if (c == separator) = true then [] :: rest.splitOn separator
          else (rest.splitOn separator).modifyHead (List.cons c) :=
        List.splitOnP_cons_eq_if_modifyHead c rest
      obtain ⟨piece, more, hrest⟩ := List.exists_cons_of_ne_nil (piecesOf_ne_nil separator rest)
      rw [piecesOf, hsplit, ← ih, hrest]
      by_cases hc : c = separator
      · rw [if_pos hc, if_pos (beq_iff_eq.mpr hc)]
      · rw [if_neg hc, if_neg fun h => hc (beq_iff_eq.mp h)]
        rfl

variable {separator : Char}

/-- A text is put together again from its pieces. -/
theorem eq_of_pieces_eq {s s' : String} (h : pieces separator s = pieces separator s') :
    s = s' := by
  have hpieces : s.toList.splitOn separator = s'.toList.splitOn separator := by
    rw [← piecesOf_eq_splitOn, ← piecesOf_eq_splitOn]
    exact (List.map_inj_right fun _ _ => String.ofList_injective).mp h
  have hlist : s.toList = s'.toList := by
    simpa only [List.intercalate_splitOn] using congrArg (List.intercalate [separator]) hpieces
  exact String.toList_injective hlist

/-- A text without separators is its only piece. -/
theorem pieces_of_not_mem {s : String} (h : separator ∉ s.toList) : pieces separator s = [s] := by
  have hone : s.toList.splitOn separator = [s.toList] :=
    List.splitOnP_eq_singleton fun c hc => by
      simpa using fun heq : c = separator => h (heq ▸ hc)
  rw [pieces, piecesOf_eq_splitOn, hone, List.map_singleton, String.ofList_toList]

/-- The pieces of texts with separators between them are the pieces of the texts. -/
theorem pieces_intercalate {texts : List String} (h : texts ≠ []) :
    pieces separator ((String.singleton separator).intercalate texts) =
      texts.flatMap (pieces separator) := by
  induction texts with
  | nil => exact absurd rfl h
  | cons s rest ih =>
      cases rest with
      | nil => simp
      | cons s' more =>
          have hsplit : ((String.singleton separator).intercalate (s :: s' :: more)).toList.splitOn
              separator = s.toList.splitOn separator ++
                ((String.singleton separator).intercalate (s' :: more)).toList.splitOn separator := by
            rw [String.intercalate_cons_cons, String.toList_append, String.toList_append,
              String.toList_singleton, List.append_assoc]
            exact List.splitOnP_append_cons _ _ (beq_self_eq_true separator)
          rw [pieces, piecesOf_eq_splitOn, hsplit, List.map_append, List.flatMap_cons,
            ← ih (List.cons_ne_nil _ _)]
          simp only [pieces, piecesOf_eq_splitOn]

/-- Texts without separators are their own pieces. -/
theorem flatMap_pieces {texts : List String} (h : ∀ s ∈ texts, separator ∉ s.toList) :
    texts.flatMap (pieces separator) = texts := by
  induction texts with
  | nil => rfl
  | cons s rest ih =>
      obtain ⟨hs, hrest⟩ := List.forall_mem_cons.mp h
      rw [List.flatMap_cons, pieces_of_not_mem hs, ih hrest, List.singleton_append]

end Text

namespace Tree

/-- The pieces into which slashes cut the names on the path of an attribute. -/
def segments (t : Tree) (q : Quark) : List String :=
  (t.path q).flatMap (Text.pieces '/')

variable {t : Tree} {p q : Quark}

/-- **The text of a path tells its pieces.** -/
theorem pathText_eq_iff (hp : t.path p ≠ []) (hq : t.path q ≠ []) :
    t.pathText p = t.pathText q ↔ t.segments p = t.segments q := by
  have hsegments : ∀ {o : Quark}, t.path o ≠ [] →
      t.segments o = Text.pieces '/' (t.pathText o) := fun ho =>
    Eq.symm (Text.pieces_intercalate ho)
  rw [hsegments hp, hsegments hq]
  exact ⟨congrArg _, Text.eq_of_pieces_eq⟩

/-- Names lead from the root to every attribute. -/
def Rooted (t : Tree) : Prop :=
  ∀ q, t.contains q = true → ∃ names, t.walk? Quark.root names = some q

/-- An attribute that is created stands at the end of the names of its parent and its own. -/
theorem rooted_push (ht : t.Rooted) {parent : Quark} {name : String}
    (hparent : parent = Quark.root ∨ t.contains parent = true)
    (hnew : t.child? parent name = none) : (⟨t.nodes.push ⟨name, parent⟩⟩ : Tree).Rooted := by
  have hgrows := t.growsTo_push ⟨name, parent⟩
  obtain ⟨names, hnames⟩ : ∃ names, t.walk? Quark.root names = some parent := by
    rcases hparent with rfl | hparent
    · exact ⟨[], rfl⟩
    · exact ht parent hparent
  intro q hq
  obtain ⟨i, hi, rfl⟩ := contains_iff.mp hq
  have hsize : i < t.size ∨ i = t.size := by
    simp only [size, Array.size_push] at hi ⊢
    omega
  rcases hsize with hlt | rfl
  · obtain ⟨old, hold⟩ := ht _ (contains_ofNat.mpr hlt)
    exact ⟨old, hgrows.walk? hold⟩
  · refine ⟨names ++ [name], ?_⟩
    rw [walk?_concat, hgrows.walk? hnames]
    exact child?_push hnew

end Tree

namespace Store

variable {s : Store} {p q : Quark}

theorem Reachable.rooted (h : s.Reachable) : s.tree.Rooted := by
  induction h with
  | empty =>
      intro q hq
      obtain ⟨i, hi, -⟩ := Tree.contains_iff.mp hq
      cases hi
  | @call s c hr ih =>
      rcases s.call_cases hr.tracks_size c with hc | ⟨parent, name, hp, hnew, hc⟩ | ⟨q, t, m, -, -, hc⟩
      · rwa [hc]
      · rw [hc, withTree_tree]
        exact Tree.rooted_push ih hp hnew
      · rwa [hc, perform_tree]

section

variable (h : s.Reachable) (hq : s.tree.contains q = true)

include h hq

/-- **The names on its path lead to an attribute.** -/
theorem Reachable.walk?_path : s.tree.walk? Quark.root (s.tree.path q) = some q := by
  obtain ⟨names, hnames⟩ := h.rooted q hq
  rwa [Tree.path_of_walk? h.grounded hnames]

theorem Reachable.path_ne_nil : s.tree.path q ≠ [] := by
  intro hnil
  have hwalk := h.walk?_path hq
  rw [hnil] at hwalk
  exact Tree.ne_root_of_contains hq (Option.some.inj hwalk).symm

variable (hp : s.tree.contains p = true)

include hp

/-- Different attributes have different paths. -/
theorem Reachable.path_inj (heq : s.tree.path p = s.tree.path q) : p = q := by
  have hwalk := h.walk?_path hp
  rw [heq, h.walk?_path hq] at hwalk
  exact (Option.some.inj hwalk).symm

/-- Different attributes have different texts for their paths, unless a name holds a slash. -/
theorem Reachable.pathText_inj (hnames : ∀ name ∈ s.tree.path p ++ s.tree.path q, '/' ∉ name.toList)
    (heq : s.tree.pathText p = s.tree.pathText q) : p = q := by
  obtain ⟨hnamesp, hnamesq⟩ := List.forall_mem_append.mp hnames
  have hpieces := (Tree.pathText_eq_iff (h.path_ne_nil hp) (h.path_ne_nil hq)).mp heq
  rw [Tree.segments, Tree.segments, Text.flatMap_pieces hnamesp, Text.flatMap_pieces hnamesq]
    at hpieces
  exact h.path_inj hq hp hpieces

end

end Store
end Chronicle
