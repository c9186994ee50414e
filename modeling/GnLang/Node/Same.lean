/-
Trees that say the same.

Two trees are the same if they differ at most in the places of their nodes.
`Node.same` compares two trees, and `Node.placeless` forgets the places of one.  Trees
that are the same have nothing left to tell them apart once their places are forgotten
(`Node.placeless_eq_of_same`), and for trees of nodes alone the converse holds
(`Node.same_of_placeless_eq`).  An object that is no node is never the same as another.

No other part of the program compares trees: this is what it means that they are the same, and
calls are not counted for it.
-/
import GnLang.Node.Foreign

namespace GnLang.Node

/-- Whether two things that are not nodes are the same. -/
def Foreign.same : Foreign → Foreign → Bool
  | .text s, .text t => s == t
  | _, _ => false

mutual

/-- Whether two trees differ at most in their places. -/
def same : Node → Node → Bool
  | identifier n _, identifier m _ => n == m
  | string v _, string w _ => v == w
  | integer v _, integer w _ => v == w
  | list xs _, list ys _ => sameAll xs ys
  | call n a none _, call m b none _ => n == m && same a b
  | call n a (some x) _, call m b (some y) _ => n == m && same a b && same x y
  | arrayAccess n i _, arrayAccess m j _ => n == m && same i j
  | scopeAccess s n _, scopeAccess t m _ => s == t && n == m
  | unary o x _, unary p y _ => o == p && same x y
  | binary l o r _, binary l' p r' _ => same l l' && o == p && same r r'
  | assignment t o v _, assignment t' p v' _ => same t t' && o == p && same v v'
  | foreign f, foreign g => f.same g
  | _, _ => false
  termination_by structural x => x

/-- Whether two lists of trees are the same, item by item. -/
def sameAll : List Node → List Node → Bool
  | [], [] => true
  | x :: xs, y :: ys => same x y && sameAll xs ys
  | _, _ => false
  termination_by structural xs => xs

end

mutual

/-- The tree with all its places forgotten. -/
def placeless : Node → Node
  | identifier n _ => identifier n .unknown
  | string v _ => string v .unknown
  | integer v _ => integer v .unknown
  | list xs _ => list (placelessAll xs) .unknown
  | call n a none _ => call n (placeless a) none .unknown
  | call n a (some b) _ => call n (placeless a) (some (placeless b)) .unknown
  | arrayAccess n i _ => arrayAccess n (placeless i) .unknown
  | scopeAccess s n _ => scopeAccess s n .unknown
  | unary o x _ => unary o (placeless x) .unknown
  | binary l o r _ => binary (placeless l) o (placeless r) .unknown
  | assignment t o v _ => assignment (placeless t) o (placeless v) .unknown
  | foreign (.object k _) => foreign (.object k .unknown)
  | foreign f => foreign f
  termination_by structural x => x

/-- The trees with all their places forgotten. -/
def placelessAll : List Node → List Node
  | [] => []
  | x :: xs => placeless x :: placelessAll xs
  termination_by structural xs => xs

end

mutual

theorem placeless_eq_of_same {x y : Node} (h : same x y = true) :
    placeless x = placeless y := by
  cases x with
  | list xs p =>
    cases y with
    | list ys q =>
      simp only [same] at h
      simp [placeless, placelessAll_eq_of_sameAll h]
    | _ => simp [same] at h
  | call n a b p =>
    cases y with
    | call m c d q =>
      cases b <;> cases d <;> simp [same] at h
      · simp [placeless, h.1, placeless_eq_of_same h.2]
      · simp [placeless, h.1.1, placeless_eq_of_same h.1.2, placeless_eq_of_same h.2]
    | _ => cases b <;> simp [same] at h
  | arrayAccess n i p =>
    cases y with
    | arrayAccess m j q =>
      simp [same] at h
      simp [placeless, h.1, placeless_eq_of_same h.2]
    | _ => simp [same] at h
  | unary o x p =>
    cases y with
    | unary o' x' q =>
      simp [same] at h
      simp [placeless, placeless_eq_of_same h]
    | _ => simp [same] at h
  | binary l o r p =>
    cases y with
    | binary l' o' r' q =>
      simp [same] at h
      simp [placeless, h.1.2, placeless_eq_of_same h.1.1, placeless_eq_of_same h.2]
    | _ => simp [same] at h
  | assignment t o v p =>
    cases y with
    | assignment t' o' v' q =>
      simp [same] at h
      simp [placeless, h.1.2, placeless_eq_of_same h.1.1, placeless_eq_of_same h.2]
    | _ => simp [same] at h
  | foreign f =>
    cases y with
    | foreign g => cases f <;> cases g <;> simp_all [same, Foreign.same, placeless]
    | _ => simp [same] at h
  | _ => cases y <;> simp_all [same, placeless]
  termination_by structural x

theorem placelessAll_eq_of_sameAll {xs ys : List Node} (h : sameAll xs ys = true) :
    placelessAll xs = placelessAll ys := by
  cases xs with
  | nil => cases ys <;> simp_all [sameAll]
  | cons x xs =>
    cases ys with
    | nil => simp [sameAll] at h
    | cons y ys =>
      simp [sameAll] at h
      simp [placelessAll, placeless_eq_of_same h.1, placelessAll_eq_of_sameAll h.2]
  termination_by structural xs

end

mutual

theorem same_of_placeless_eq {x y : Node} (hx : foreign? x = none)
    (h : placeless x = placeless y) : same x y = true := by
  cases x with
  | list xs p =>
    cases y with
    | list ys q =>
      simp [placeless] at h
      simp [same, sameAll_of_placelessAll_eq hx h]
    | call _ _ b _ => cases b <;> simp [placeless] at h
    | foreign g => cases g <;> simp [placeless] at h
    | _ => simp [placeless] at h
  | call n a b p =>
    cases y with
    | call m c d q =>
      cases b <;> cases d <;> simp [placeless] at h
      · simp [foreign?] at hx
        simp [same, h.1, same_of_placeless_eq hx h.2]
      · simp [foreign?] at hx
        simp [same, h.1, same_of_placeless_eq hx.1 h.2.1, same_of_placeless_eq hx.2 h.2.2]
    | foreign g => cases b <;> cases g <;> simp [placeless] at h
    | _ => cases b <;> simp [placeless] at h
  | arrayAccess n i p =>
    cases y with
    | arrayAccess m j q =>
      simp [placeless] at h
      simp [foreign?] at hx
      simp [same, h.1, same_of_placeless_eq hx h.2]
    | call _ _ b _ => cases b <;> simp [placeless] at h
    | foreign g => cases g <;> simp [placeless] at h
    | _ => simp [placeless] at h
  | unary o x p =>
    cases y with
    | unary o' x' q =>
      simp [placeless] at h
      simp [foreign?] at hx
      simp [same, same_of_placeless_eq hx h]
    | call _ _ b _ => cases b <;> simp [placeless] at h
    | foreign g => cases g <;> simp [placeless] at h
    | _ => simp [placeless] at h
  | binary l o r p =>
    cases y with
    | binary l' o' r' q =>
      simp [placeless] at h
      simp [foreign?] at hx
      simp [same, h.2.1, same_of_placeless_eq hx.1 h.1, same_of_placeless_eq hx.2 h.2.2]
    | call _ _ b _ => cases b <;> simp [placeless] at h
    | foreign g => cases g <;> simp [placeless] at h
    | _ => simp [placeless] at h
  | assignment t o v p =>
    cases y with
    | assignment t' o' v' q =>
      simp [placeless] at h
      simp [foreign?] at hx
      simp [same, h.2.1, same_of_placeless_eq hx.1 h.1, same_of_placeless_eq hx.2 h.2.2]
    | call _ _ b _ => cases b <;> simp [placeless] at h
    | foreign g => cases g <;> simp [placeless] at h
    | _ => simp [placeless] at h
  | foreign f => simp [foreign?] at hx
  | _ =>
    cases y with
    | call _ _ b _ => cases b <;> simp [placeless] at h
    | foreign g => cases g <;> simp [placeless] at h
    | _ => simp_all [placeless, same]
  termination_by structural x

theorem sameAll_of_placelessAll_eq {xs ys : List Node} (hx : foreignIn? xs = none)
    (h : placelessAll xs = placelessAll ys) : sameAll xs ys = true := by
  cases xs with
  | nil => cases ys <;> simp_all [placelessAll, sameAll]
  | cons x xs =>
    cases ys with
    | nil => simp [placelessAll] at h
    | cons y ys =>
      simp [placelessAll] at h
      simp [foreignIn?] at hx
      simp [sameAll, same_of_placeless_eq hx.1 h.1, sameAll_of_placelessAll_eq hx.2 h.2]
  termination_by structural xs

end

end GnLang.Node
