/-
Every well-formed tree has a text, and the text writes it.

`Laid d x cs` gathers what is shown of the text of an expression: it writes the tree as
an expression, and as an operand, a target or a call if the tree is one.
`exists_layout` proves it of the canonical text at every indent, by induction on
well-formedness, for every number of nestings that is no less than `need`.
-/
import GnLang.Proofs.Format.Writes
import GnLang.Proofs.Text.Ascii

namespace GnLang.Format

open Grammar Scan Token

variable {d : Nat} {x : Node} {xs : List Node} {cs : List Char}

/-! ### Margins -/

theorem isBlank_margin (depth : Int) : ∀ c ∈ (margin depth).toList, isBlank c := by
  rw [margin, Text.toList_pushn]
  intro c hc
  obtain ⟨-, rfl⟩ : _ ∧ c = ' ' := by simpa using hc
  decide

/-! ### Expressions -/

/-- The characters write the expression, in every way that it can be used. -/
structure Laid (d : Nat) (x : Node) (cs : List Char) : Prop where
  opens : Opens cs
  expression : Writes (Extends d) x cs
  operand : isBinary x = false → Writes (Forms d .unary) x cs
  target : x.isTarget = true → Writes (Forms d .target) x cs
  call : x.isStatement = true → Writes (Forms d .call) x cs

theorem Laid.of_primary (hopens : Opens cs) (h : Writes (Forms d .primary) x cs)
    (ht : x.isTarget = false) (hs : x.isStatement = false) : Laid d x cs := by
  have hunary : Writes (Forms d .unary) x cs := h.imp fun _ _ => Forms.unary
  refine ⟨hopens, hunary.imp fun _ _ => Forms.extends, fun _ => hunary, fun h => ?_, fun h => ?_⟩
  · rw [ht] at h
    cases h
  · rw [hs] at h
    cases h

theorem Laid.of_target (hopens : Opens cs) (h : Writes (Forms d .target) x cs)
    (hs : x.isStatement = false) : Laid d x cs := by
  have hunary : Writes (Forms d .unary) x cs :=
    h.imp fun _ _ hy k hk => .ofPrimary (.ofTarget (hy k hk))
  refine ⟨hopens, hunary.imp fun _ _ => Forms.extends, fun _ => hunary, fun _ => h, fun h => ?_⟩
  rw [hs] at h
  cases h

theorem Laid.of_call (hopens : Opens cs) (h : Writes (Forms d .call) x cs)
    (ht : x.isTarget = false) : Laid d x cs := by
  have hunary : Writes (Forms d .unary) x cs :=
    h.imp fun _ _ hy k hk => .ofPrimary (.ofCall (hy k hk))
  refine ⟨hopens, hunary.imp fun _ _ => Forms.extends, fun _ => hunary, fun h => ?_, fun _ => h⟩
  rw [ht] at h
  cases h

/-- What is shown of the text of a tree in a role. -/
def LaidAs (r : Role) (d : Nat) (x : Node) (cs : List Char) : Prop :=
  match r with
  | .expression => Laid d x cs
  | .statement => Writes (States d) x cs

/-- The text writes the tree with any number of nestings that is no less than `need`. -/
def LaidOut (r : Role) (x : Node) (text : String) : Prop :=
  ∀ d, need x ≤ d → LaidAs r d x text.toList

/-- A text with parentheses round it, if they are needed, writes an operand. -/
theorem LaidOut.grouped {text : String} (h : LaidOut .expression x text)
    (hd : need x + parentheses x ≤ d) :
    Opens (grouped x text).toList ∧ Writes (Forms d .unary) x (grouped x text).toList := by
  rw [parentheses] at hd
  rw [Format.grouped]
  split at hd
  · rename_i hbinary
    -- the parentheses take one nesting, which leaves one less for what they enclose
    obtain ⟨e, rfl⟩ := Nat.exists_eq_add_of_le' (Nat.le_of_add_left_le hd)
    have hx : Laid e x text.toList := h e (Nat.le_of_succ_le_succ hd)
    rw [if_pos hbinary, String.toList_append, String.toList_append, List.append_assoc]
    exact ⟨⟨'(', _, rfl, by decide⟩, (writes_grouped hx.expression).imp fun _ _ => Forms.unary⟩
  · rename_i hbinary
    have hx : Laid d x text.toList := h d hd
    rw [if_neg hbinary]
    exact ⟨hx.opens, hx.operand (by simpa using hbinary)⟩

theorem exists_layoutAll {r : Role} {depth : Int}
    (h : ∀ x ∈ xs, ∃ text, layout depth x = .ok text ∧ LaidOut r x text) :
    ∃ texts, layoutAll depth xs = .ok texts ∧ List.Forall₂ (LaidOut r) xs texts := by
  induction xs with
  | nil => exact ⟨[], rfl, .nil⟩
  | cons x xs ih =>
    obtain ⟨hx, hxs⟩ := List.forall_mem_cons.mp h
    obtain ⟨text, htext, hlaid⟩ := hx
    obtain ⟨texts, htexts, hall⟩ := ih hxs
    refine ⟨text :: texts, ?_, .cons hlaid hall⟩
    rw [layoutAll, htext, htexts]
    rfl

/-- All texts write their trees, with as many nestings as the trees need together. -/
theorem laidAs_of_needs {r : Role} {texts : List String}
    (h : List.Forall₂ (LaidOut r) xs texts) (hd : needs xs ≤ d) :
    List.Forall₂ (fun x t => LaidAs r d x t.toList) xs texts := by
  induction h with
  | nil => exact .nil
  | cons hx _ ih =>
    obtain ⟨hx', hxs'⟩ := Nat.max_le.mp hd
    exact .cons (hx d hx') (ih hxs')

/-! ### Lists and bodies -/

theorem toList_join_map (f : String → String) (texts : List String) :
    (String.join (texts.map f)).toList = texts.flatMap fun t => (f t).toList := by
  rw [String.toList_join, List.flatMap_map]

/-- The blanks between a bracket and the items of a list, if there are any items. -/
def gapFor (texts : List String) (gap : List Char) : List Char :=
  if texts.isEmpty then [] else gap

theorem isBlank_gapFor (texts : List String) {gap : List Char} (h : ∀ c ∈ gap, isBlank c) :
    ∀ c ∈ gapFor texts gap, isBlank c := by
  rw [gapFor]
  split
  · exact List.forall_mem_nil _
  · exact h

theorem toList_listText (depth : Int) (texts : List String) :
    (listText depth texts).toList = Symbol.lbrack.chars ++ (gapFor texts ['\n'] ++
      ((texts.flatMap fun t => (margin (depth + 1)).toList ++ (t.toList ++ Symbol.comma.chars)
        ++ ['\n']) ++ gapFor texts (margin depth).toList) ++ Symbol.rbrack.chars) := by
  cases texts with
  | nil => simp [listText, gapFor, Symbol.chars]
  | cons t texts =>
    rw [listText, if_neg (by simp), String.toList_append, String.toList_append,
      String.toList_append, toList_join_map]
    simp [gapFor, Symbol.chars, String.toList_append]

theorem toList_blockText (depth : Int) (texts : List String) :
    (blockText depth texts).toList = Symbol.lbrace.chars ++ (['\n'] ++
      ((texts.flatMap fun t => (margin (depth + 1)).toList ++ t.toList ++ ['\n']) ++
        ((margin depth).toList ++ Symbol.rbrace.chars))) := by
  rw [blockText, String.toList_append, String.toList_append, String.toList_append,
    toList_join_map]
  simp [Symbol.chars, String.toList_append]

theorem laid_list {p : Pos} {texts : List String} {depth : Int}
    (h : List.Forall₂ (fun x t => Laid d x t.toList) xs texts) :
    Laid (d + 1) (.list xs p) (listText depth texts).toList := by
  have hitems := writes_elements (N := fun _ => True) (isBlank_margin (depth + 1))
    (h.imp fun _ _ hx => hx.expression)
  have hlist := writes_list (p := p) (isBlank_gapFor texts isBlank_newline)
    ((hitems.before_blanks (isBlank_gapFor texts (isBlank_margin depth))).imp fun _ _ h => h _)
  rw [← toList_listText] at hlist
  refine .of_primary ?_ hlist rfl rfl
  rw [toList_listText]
  exact ⟨'[', _, rfl, by decide⟩

theorem laid_call {n : String} {p q : Pos} {texts : List String} (hn : Text.IsWord n)
    (h : List.Forall₂ (fun x t => Laid d x t.toList) xs texts) :
    Laid (d + 1) (.call n (.list xs q) none p)
      (n ++ "(" ++ ", ".intercalate texts ++ ")").toList := by
  have hcall := writes_call (p := p) (q := q) hn
    (writes_arguments (h.imp fun _ _ hx => hx.expression))
  have htext : (n ++ "(" ++ ", ".intercalate texts ++ ")").toList = n.toList ++
      (Symbol.lparen.chars ++ ((", ".intercalate texts).toList ++ Symbol.rparen.chars)) := by
    simp only [String.toList_append, List.append_assoc]
    rfl
  rw [htext]
  exact .of_call ((opens_word hn).append _) hcall rfl

theorem laid_bodyCall {n : String} {ys : List Node} {p q b : Pos} {texts lines : List String}
    {depth : Int} (hn : Text.IsWord n)
    (hxs : List.Forall₂ (fun x t => Laid d x t.toList) xs texts)
    (hys : List.Forall₂ (fun y t => Writes (States d) y t.toList) ys lines) :
    Laid (d + 1) (.call n (.list xs q) (some (.list ys b)) p)
      (n ++ "(" ++ ", ".intercalate texts ++ ") " ++ blockText depth lines).toList := by
  have hcall := writes_bodyCall (p := p) (q := q) (b := b) hn isBlank_newline
    (isBlank_margin depth) (writes_arguments (hxs.imp fun _ _ hx => hx.expression))
    (writes_statements (isBlank_margin (depth + 1)) hys)
  have htext : (n ++ "(" ++ ", ".intercalate texts ++ ") " ++ blockText depth lines).toList =
      n.toList ++ (Symbol.lparen.chars ++ ((", ".intercalate texts).toList ++
        Symbol.rparen.chars ++ ([' '] ++ (blockText depth lines).toList))) := by
    simp only [String.toList_append, List.append_assoc]
    rfl
  rw [htext, toList_blockText]
  exact .of_call ((opens_word hn).append _) hcall rfl

/-! ### Operators -/

theorem laid_unary {o : UnaryOp} {p : Pos} (hopens : Opens cs)
    (h : Writes (Forms d .unary) x cs) : Laid (d + 1) (.unary o x p) (o.symbol.chars ++ cs) := by
  have hunary := writes_unary (o := o) (p := p) hopens h
  refine ⟨?_, hunary.imp fun _ _ => Forms.extends, fun _ => hunary, nofun, nofun⟩
  cases o
  exact ⟨'!', _, rfl, by decide⟩

theorem laid_binary {l r : Node} {o : BinaryOp} {p : Pos} {ds : List Char} (hl : Laid d l cs)
    (hr : Writes (Forms d .unary) r ds) :
    Laid d (.binary l o r p) (cs ++ [' '] ++ (o.symbol.chars ++ ([' '] ++ ds))) :=
  ⟨(hl.opens.append _).append _, writes_binary hl.expression hr, nofun, nofun, nofun⟩

/-! ### Every tree -/

theorem exists_layout {r : Role} (h : WellFormed r x) :
    ∀ depth : Int, ∃ text, layout depth x = .ok text ∧ LaidOut r x text := by
  induction h with
  | @identifier n p hn =>
    intro depth
    exact ⟨_, rfl, fun d _ => Laid.of_target (opens_word hn) (writes_identifier hn) rfl⟩
  | @string v p hv =>
    intro depth
    refine ⟨_, rfl, fun d _ => ?_⟩
    have htext : ("\"" ++ v ++ "\"").toList = '"' :: (v.toList ++ ['"']) := by
      simp only [String.toList_append, List.append_assoc]
      rfl
    show Laid d _ _
    rw [htext]
    exact .of_primary ⟨'"', _, rfl, by decide⟩ (writes_string hv) rfl rfl
  | @integer v p hv =>
    intro depth
    exact ⟨_, rfl, fun d _ => Laid.of_primary (opens_integer v) (writes_integer hv) rfl rfl⟩
  | @list xs p _ ih =>
    intro depth
    obtain ⟨texts, htexts, hall⟩ := exists_layoutAll fun x hx => ih x hx (depth + 1)
    refine ⟨listText depth texts, by rw [layout, htexts]; rfl, fun d hd => ?_⟩
    -- at least one nesting is needed, so there is one to open
    obtain ⟨e, rfl⟩ := Nat.exists_eq_add_of_le' (Nat.le_of_add_left_le hd)
    exact laid_list (laidAs_of_needs hall (Nat.le_of_succ_le_succ hd))
  | @call n xs p q hn _ ih =>
    intro depth
    obtain ⟨texts, htexts, hall⟩ := exists_layoutAll fun x hx => ih x hx depth
    refine ⟨_, by rw [layout, layoutItems, htexts]; rfl, fun d hd => ?_⟩
    obtain ⟨e, rfl⟩ := Nat.exists_eq_add_of_le' (Nat.le_of_add_left_le hd)
    exact laid_call hn (laidAs_of_needs hall (Nat.le_of_succ_le_succ hd))
  | @bodyCall n xs ys p q b hn _ _ ihxs ihys =>
    intro depth
    obtain ⟨texts, htexts, hall⟩ := exists_layoutAll fun x hx => ihxs x hx depth
    obtain ⟨lines, hlines, hbody⟩ := exists_layoutAll fun y hy => ihys y hy (depth + 1)
    refine ⟨_, by rw [layout, layoutItems, htexts, layoutItems, hlines]; rfl, fun d hd => ?_⟩
    obtain ⟨hargs, hys⟩ := Nat.max_le.mp hd
    obtain ⟨e, rfl⟩ := Nat.exists_eq_add_of_le' (Nat.le_of_add_left_le hargs)
    exact laid_bodyCall hn (laidAs_of_needs hall (Nat.le_of_succ_le_succ hargs))
      (laidAs_of_needs hbody (Nat.le_of_succ_le_succ hys))
  | @arrayAccess n i p hn _ ih =>
    intro depth
    obtain ⟨text, htext, hlaid⟩ := ih depth
    refine ⟨n ++ "[" ++ text ++ "]", by rw [layout, htext]; rfl, fun d hd => ?_⟩
    obtain ⟨e, rfl⟩ := Nat.exists_eq_add_of_le' (Nat.le_of_add_left_le hd)
    have hi : Laid e i text.toList := hlaid e (Nat.le_of_succ_le_succ hd)
    have hchars : (n ++ "[" ++ text ++ "]").toList =
        n.toList ++ (Symbol.lbrack.chars ++ (text.toList ++ Symbol.rbrack.chars)) := by
      simp only [String.toList_append, List.append_assoc]
      rfl
    show Laid _ _ _
    rw [hchars]
    exact .of_target ((opens_word hn).append _) (writes_arrayAccess hn hi.expression) rfl
  | @scopeAccess n m p hn hm =>
    intro depth
    refine ⟨n ++ "." ++ m, rfl, fun d _ => ?_⟩
    have hchars : (n ++ "." ++ m).toList = n.toList ++ (Symbol.dot.chars ++ m.toList) := by
      simp only [String.toList_append, List.append_assoc]
      rfl
    show Laid _ _ _
    rw [hchars]
    exact .of_target ((opens_word hn).append _) (writes_scopeAccess hn hm) rfl
  | @unary o x p _ ih =>
    intro depth
    obtain ⟨text, htext, hlaid⟩ := ih depth
    refine ⟨o.text ++ grouped x text, by rw [layout, htext]; rfl, fun d hd => ?_⟩
    obtain ⟨e, rfl⟩ := Nat.exists_eq_add_of_le' (Nat.le_of_add_left_le hd)
    obtain ⟨hopens, hx⟩ := hlaid.grouped (Nat.le_of_succ_le_succ hd)
    have hchars : (o.text ++ grouped x text).toList =
        o.symbol.chars ++ (grouped x text).toList := by
      rw [String.toList_append, UnaryOp.text, Symbol.text, String.toList_ofList]
    show Laid _ _ _
    rw [hchars]
    exact laid_unary hopens hx
  | @binary l r o p _ _ ihl ihr =>
    intro depth
    obtain ⟨left, hleft, hl⟩ := ihl depth
    obtain ⟨right, hright, hr⟩ := ihr depth
    refine ⟨left ++ " " ++ o.text ++ " " ++ grouped r right,
      by rw [layout, hleft, hright]; rfl, fun d hd => ?_⟩
    obtain ⟨hdl, hdr⟩ := Nat.max_le.mp hd
    -- no parentheses round the left operand: operators are folded to the left anyway
    have hlaid : Laid d l left.toList := hl d hdl
    obtain ⟨-, hoperand⟩ := hr.grouped hdr
    have hchars : (left ++ " " ++ o.text ++ " " ++ grouped r right).toList =
        left.toList ++ [' '] ++ (o.symbol.chars ++ ([' '] ++ (grouped r right).toList)) := by
      simp only [String.toList_append, BinaryOp.text, Symbol.text, String.toList_ofList,
        List.append_assoc]
      rfl
    show Laid _ _ _
    rw [hchars]
    exact laid_binary hlaid hoperand
  | callStatement _ ih =>
    intro depth
    obtain ⟨text, htext, hlaid⟩ := ih depth
    refine ⟨text, htext, fun d hd => ?_⟩
    exact ((hlaid d hd).call rfl).imp fun _ _ hy k hk => .callStatement (hy k hk.1)
  | @assignment t v o p _ ht _ iht ihv =>
    intro depth
    obtain ⟨target, htarget, hlt⟩ := iht depth
    obtain ⟨value, hvalue, hlv⟩ := ihv depth
    refine ⟨target ++ " " ++ o.text ++ " " ++ value,
      by rw [layout, htarget, hvalue]; rfl, fun d hd => ?_⟩
    obtain ⟨hdt, hdv⟩ := Nat.max_le.mp hd
    have hlaid : Laid d t target.toList := hlt d hdt
    have hlaid' : Laid d v value.toList := hlv d hdv
    have hchars : (target ++ " " ++ o.text ++ " " ++ value).toList =
        target.toList ++ [' '] ++ (o.symbol.chars ++ ([' '] ++ value.toList)) := by
      simp only [String.toList_append, AssignOp.text, Symbol.text, String.toList_ofList,
        List.append_assoc]
      rfl
    show Writes _ _ _
    rw [hchars]
    exact writes_assignment (hlaid.target ht) hlaid'.expression

/-- Whatever text a well-formed tree has, it writes the tree. -/
theorem laidOut_of_layout {r : Role} (h : WellFormed r x) {depth : Int} {text : String}
    (htext : layout depth x = .ok text) : LaidOut r x text := by
  obtain ⟨text', htext', hlaid⟩ := exists_layout h depth
  cases htext.symm.trans htext'
  exact hlaid

theorem exists_lines (h : ∀ x ∈ xs, WellFormed .statement x) :
    ∃ texts, layoutAll 0 xs = .ok texts ∧ List.Forall₂ (LaidOut .statement) xs texts :=
  exists_layoutAll fun x hx => exists_layout (h x hx) 0

end GnLang.Format
