/-
Line ends in the canonical text.

A carriage return in the canonical text of a tree can only stand in a string, and strings are
in quotes.  So when the line ends of the text are made newlines, it becomes the canonical text
of the tree with the line ends of its strings made newlines, and takes as many calls to write:
`formatted_unified`, `formattedIn_unified`.
-/
import GnLang.Proofs.Format.Written
import GnLang.Proofs.Text.LineEnd
import GnLang.Proofs.Tree.Strings

namespace GnLang.Format

open Text

variable {x : Node} {xs : List Node} {texts texts' : List String}

/-! ### Parts of the text -/

theorem not_mem_of_isWord {n : String} (h : IsWord n) : '\r' ∉ n.toList :=
  fun hmem => absurd (h.isIdentChar _ hmem) (by decide)

theorem not_mem_toString (v : Int) : '\r' ∉ (toString v).toList := by
  have hdigits : ∀ n : Nat, '\r' ∉ (toString n).toList := fun n hmem =>
    absurd ((numeral_toString n).isDigit _ hmem) (by decide)
  rw [Int.toString_eq_repr, Int.repr_eq_if]
  split
  · exact hdigits _
  · rw [String.toList_append, List.mem_append]
    rintro (hmem | hmem)
    · exact absurd hmem (by decide)
    · exact hdigits _ hmem

theorem unifies_margin (depth : Int) : Unifies (margin depth) (margin depth) :=
  .refl (by rw [margin, toList_pushn]; simp)

/-- Lines, each with a margin before it and something without line ends of its own after it. -/
theorem unifies_lines (stop : String) (hstop : '\r' ∉ stop.toList)
    (h : List.Forall₂ Unifies texts texts') (depth : Int) :
    Unifies (String.join (texts.map fun t => margin depth ++ t ++ stop))
      (String.join (texts'.map fun t => margin depth ++ t ++ stop)) := by
  refine .join (List.forall₂_map_left_iff.mpr (List.forall₂_map_right_iff.mpr ?_))
  exact h.imp fun _ _ ht => ((unifies_margin depth).append ht).append (.refl hstop)

theorem unifies_listText (h : List.Forall₂ Unifies texts texts') (depth : Int) :
    Unifies (listText depth texts) (listText depth texts') := by
  cases h with
  | nil => exact .refl (s := "[]") (by decide)
  | cons ht hts =>
    have hlines := unifies_lines ",\n" (by decide) (.cons ht hts) (depth + 1)
    rw [listText, listText, if_neg (by simp), if_neg (by simp)]
    exact (((Unifies.refl (by decide)).append hlines).append (unifies_margin depth)).append
      (.refl (by decide))

theorem unifies_blockText (h : List.Forall₂ Unifies texts texts') (depth : Int) :
    Unifies (blockText depth texts) (blockText depth texts') := by
  have hlines := unifies_lines "\n" (by decide) h (depth + 1)
  exact (((Unifies.refl (by decide)).append hlines).append (unifies_margin depth)).append
    (.refl (by decide))

theorem unifies_grouped {s t : String} (h : Unifies s t) (x : Node) :
    Unifies (grouped x s) (grouped (x.mapStrings unified) t) := by
  rw [grouped, grouped, isBinary_mapStrings]
  split
  · exact ((Unifies.refl (by decide)).append h).append (.refl (by decide))
  · exact h

/-! ### Every tree -/

/-- The tree has a text at every depth, and with the line ends unified in its strings it has
that text with the line ends unified. -/
def LayoutUnifies (x : Node) : Prop :=
  ∀ depth, ∃ s t, layout depth x = .ok s ∧ layout depth (x.mapStrings unified) = .ok t ∧
    Unifies s t

theorem exists_layoutAll_unified (h : ∀ x ∈ xs, LayoutUnifies x) (depth : Int) :
    ∃ texts texts', layoutAll depth xs = .ok texts ∧
      layoutAll depth (Node.mapStringsAll unified xs) = .ok texts' ∧
      List.Forall₂ Unifies texts texts' := by
  induction xs with
  | nil => exact ⟨[], [], rfl, rfl, .nil⟩
  | cons x xs ih =>
    obtain ⟨hx, hxs⟩ := List.forall_mem_cons.mp h
    obtain ⟨s, t, hs, ht, hst⟩ := hx depth
    obtain ⟨ss, ts, hss, hts, hall⟩ := ih hxs
    refine ⟨s :: ss, t :: ts, ?_, ?_, .cons hst hall⟩
    · rw [layoutAll, hs, hss]
      rfl
    · rw [Node.mapStringsAll, layoutAll, ht, hts]
      rfl

theorem layoutUnifies_of_wellFormed {r : Role} (h : WellFormed r x) : LayoutUnifies x := by
  induction h with
  | identifier hn => exact fun depth => ⟨_, _, rfl, rfl, .refl (not_mem_of_isWord hn)⟩
  | @string v p _ => exact fun depth => ⟨_, _, rfl, rfl, unifies_quotes v⟩
  | @integer v p _ => exact fun depth => ⟨_, _, rfl, rfl, .refl (not_mem_toString v)⟩
  | scopeAccess hn hm =>
    exact fun depth => ⟨_, _, rfl, rfl, ((Unifies.refl (not_mem_of_isWord hn)).append
      (.refl (by decide))).append (.refl (not_mem_of_isWord hm))⟩
  | @list xs p _ ih =>
    intro depth
    obtain ⟨ss, ts, hss, hts, hall⟩ := exists_layoutAll_unified ih (depth + 1)
    refine ⟨listText depth ss, listText depth ts, ?_, ?_, unifies_listText hall depth⟩
    · rw [layout, hss]
      rfl
    · rw [Node.mapStrings, layout, hts]
      rfl
  | @call n xs p q hn _ ih =>
    intro depth
    obtain ⟨ss, ts, hss, hts, hall⟩ := exists_layoutAll_unified ih depth
    have hargs := Unifies.intercalate ", " (by decide) hall
    refine ⟨_, _, by rw [layout, layoutItems, hss]; rfl,
      by rw [Node.mapStrings, Node.mapStrings, layout, layoutItems, hts]; rfl, ?_⟩
    exact (((Unifies.refl (not_mem_of_isWord hn)).append (.refl (by decide))).append hargs).append
      (.refl (by decide))
  | @bodyCall n xs ys p q b hn _ _ ihxs ihys =>
    intro depth
    obtain ⟨ss, ts, hss, hts, hall⟩ := exists_layoutAll_unified ihxs depth
    obtain ⟨ls, ms, hls, hms, hbody⟩ := exists_layoutAll_unified ihys (depth + 1)
    have hargs := Unifies.intercalate ", " (by decide) hall
    refine ⟨_, _, by rw [layout, layoutItems, hss, layoutItems, hls]; rfl,
      by rw [Node.mapStrings, Node.mapStrings, Node.mapStrings, layout, layoutItems, hts,
        layoutItems, hms]; rfl, ?_⟩
    exact ((((Unifies.refl (not_mem_of_isWord hn)).append (.refl (by decide))).append
      hargs).append (.refl (by decide))).append (unifies_blockText hbody depth)
  | @arrayAccess n i p hn _ ih =>
    intro depth
    obtain ⟨s, t, hs, ht, hst⟩ := ih depth
    refine ⟨_, _, by rw [layout, hs]; rfl, by rw [Node.mapStrings, layout, ht]; rfl, ?_⟩
    exact (((Unifies.refl (not_mem_of_isWord hn)).append (.refl (by decide))).append hst).append
      (.refl (by decide))
  | @unary o x p _ ih =>
    intro depth
    obtain ⟨s, t, hs, ht, hst⟩ := ih depth
    refine ⟨_, _, by rw [layout, hs]; rfl, by rw [Node.mapStrings, layout, ht]; rfl, ?_⟩
    exact (Unifies.refl (by cases o; decide)).append (unifies_grouped hst x)
  | @binary l r o p _ _ ihl ihr =>
    intro depth
    obtain ⟨s, t, hs, ht, hst⟩ := ihl depth
    obtain ⟨s', t', hs', ht', hst'⟩ := ihr depth
    refine ⟨_, _, by rw [layout, hs, hs']; rfl, by rw [Node.mapStrings, layout, ht, ht']; rfl, ?_⟩
    exact (((hst.append (.refl (by decide))).append (.refl (by cases o <;> decide))).append
      (.refl (by decide))).append (unifies_grouped hst' r)
  | @callStatement n a b p _ ih => exact ih
  | @assignment t v o p _ _ _ iht ihv =>
    intro depth
    obtain ⟨s, t, hs, ht, hst⟩ := iht depth
    obtain ⟨s', t', hs', ht', hst'⟩ := ihv depth
    refine ⟨_, _, by rw [layout, hs, hs']; rfl, by rw [Node.mapStrings, layout, ht, ht']; rfl, ?_⟩
    exact (((hst.append (.refl (by decide))).append (.refl (by cases o <;> decide))).append
      (.refl (by decide))).append hst'

theorem isQuotable_unified {v : String} (h : IsQuotable v) : IsQuotable (unified v) := by
  intro hmem
  rw [unified, String.toList_ofList] at hmem
  rcases mem_unifyLineEnds hmem with hquote | hmem
  · exact absurd hquote (by decide)
  · exact h hmem

theorem wellFormed_unified (h : ∀ x ∈ xs, WellFormed .statement x) :
    ∀ y ∈ Node.mapStringsAll unified xs, WellFormed .statement y :=
  Node.forall_mem_mapStringsAll.mpr fun x hx => (h x hx).mapStrings fun _ => isQuotable_unified

/-- With the line ends in its strings made newlines, a program has the canonical text that it
had with its line ends made newlines. -/
theorem formatted_unified {p : Pos} {text : String} (h : ∀ x ∈ xs, WellFormed .statement x)
    (htext : formatted (.list xs p) = .ok text) :
    formatted (.list (Node.mapStringsAll unified xs) p) = .ok (unified text) := by
  obtain ⟨ss, ts, hss, hts, hall⟩ :=
    exists_layoutAll_unified (fun x hx => layoutUnifies_of_wellFormed (h x hx)) 0
  cases htext.symm.trans (formatted_eq h hss)
  rw [formatted_eq (wellFormed_unified h) hts]
  exact congrArg Except.ok (unifies_lines "\n" (by decide) hall 0).eq_unified

/-! ### Calls -/

namespace Emitter

mutual

theorem height_mapStrings (f : String → String) : ∀ x : Node, height (x.mapStrings f) = height x
  | .identifier .. | .string .. | .integer .. | .scopeAccess .. | .foreign _ => rfl
  | .list xs _ => by
    rw [Node.mapStrings, height, height, heights_mapStringsAll]
    cases xs <;> rfl
  | .call _ a none _ => by rw [Node.mapStrings, height, height, itemsHeight_mapStrings]
  | .call _ a (some b) _ => by
    rw [Node.mapStrings, height, height, itemsHeight_mapStrings, itemsHeight_mapStrings]
  | .arrayAccess _ i _ => by rw [Node.mapStrings, height, height, height_mapStrings]
  | .unary _ x _ => by rw [Node.mapStrings, height, height, height_mapStrings]
  | .binary l _ r _ => by
    rw [Node.mapStrings, height, height, height_mapStrings, height_mapStrings]
  | .assignment t _ v _ => by
    rw [Node.mapStrings, height, height, height_mapStrings, height_mapStrings]

theorem itemsHeight_mapStrings (f : String → String) :
    ∀ x : Node, itemsHeight (x.mapStrings f) = itemsHeight x
  | .list xs _ => by rw [Node.mapStrings, itemsHeight, itemsHeight, heights_mapStringsAll]
  | .call _ _ b _ => by cases b <;> rfl
  | .identifier .. | .string .. | .integer .. | .scopeAccess .. | .arrayAccess .. | .unary ..
  | .binary .. | .assignment .. | .foreign _ => rfl

theorem heights_mapStringsAll (f : String → String) :
    ∀ xs : List Node, heights (Node.mapStringsAll f xs) = heights xs
  | [] => rfl
  | x :: xs => by
    rw [Node.mapStringsAll, heights, heights, height_mapStrings, heights_mapStringsAll]

end

end Emitter

/-- Where there is room for a program, there is room for it with other line ends. -/
theorem formattedIn_unified {p : Pos} {text : String} {room : Room}
    (h : ∀ x ∈ xs, WellFormed .statement x) (htext : formattedIn room (.list xs p) = .ok text) :
    formattedIn room (.list (Node.mapStringsAll unified xs) p) = .ok (unified text) := by
  obtain ⟨htext, hroom⟩ := (formattedIn_eq_ok h).mp htext
  refine (formattedIn_eq_ok (wellFormed_unified h)).mpr ⟨formatted_unified h htext, ?_⟩
  rw [heightIn, if_pos rfl] at hroom ⊢
  rwa [Emitter.heights_mapStringsAll]

end GnLang.Format
