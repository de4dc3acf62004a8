import Configurator.Proofs.Expr.Evaluated

/-!
# Values are read back from their text

Printing a value and reading the text are inverse to each other (`value_round_trip`), as long as no
integer in the value is the least one of 64 bits. Values that assignments evaluate to hold no such
integer, so that what was read once is read again from its text.
-/

namespace Configurator

/-! ## Integers in values -/

namespace Value

mutual

/-- The integers that stand in a value, also inside of tuples. -/
def integers : Value → List Int
  | .bool _ => []
  | .int n => [n]
  | .str _ => []
  | .tuple items => integersOf items

def integersOf : List Value → List Int
  | [] => []
  | v :: vs => v.integers ++ integersOf vs

end

theorem mem_integersOf {items : List Value} {n : Int} :
    n ∈ integersOf items ↔ ∃ v ∈ items, n ∈ v.integers := by
  induction items with
  | nil => simp [integersOf]
  | cons v vs ih => rw [integersOf, List.mem_append, ih, List.exists_mem_cons_iff]

theorem HasLiteral.of_integers {v : Value}
    (h : ∀ n ∈ v.integers, Text.Integer.least < n ∧ n ≤ Text.Integer.greatest) : v.HasLiteral := by
  cases v with
  | bool b => exact .bool b
  | int n =>
      obtain ⟨hlow, hhigh⟩ := h n (List.mem_singleton_self n)
      exact .int hlow hhigh
  | str s => exact .str s
  | tuple items =>
      refine .tuple fun v hv => HasLiteral.of_integers fun n hn => ?_
      exact h n (mem_integersOf.2 ⟨v, hv, hn⟩)

/-- A value has a literal when its integers are in range and greater than the least. -/
theorem hasLiteral_iff {v : Value} :
    v.HasLiteral
      ↔ ∀ n ∈ v.integers, Text.Integer.least < n ∧ n ≤ Text.Integer.greatest := by
  refine ⟨fun h => ?_, .of_integers⟩
  induction h with
  | bool b => simp [integers]
  | int hlow hhigh => simpa [integers] using ⟨hlow, hhigh⟩
  | str s => simp [integers]
  | tuple _ ih =>
      intro n hn
      obtain ⟨v, hv, hmem⟩ := mem_integersOf.1 hn
      exact ih v hv n hmem

end Value

namespace Expr

/-! ## Texts of values -/

/-- The text of a value is an expression for the value, whatever identifiers stand for. -/
theorem exists_parse_text {v : Value} (hv : v.HasLiteral) :
    ∃ e, parse v.text.toList = .ok e ∧ ∀ env, e.eval env = .ok v := by
  obtain ⟨p, hp⟩ := exists_isRead hv
  have hlex : lex v.chars = .ok p.tokens := by
    have hlexes := hp.lexes (Text.byteSize v.chars) [] endsWord_nil
    rw [List.append_nil] at hlexes
    rw [lex, hlexes, lexFrom]
    simp [Except.map]
  refine ⟨p.tree, ?_, hp.evaluates⟩
  rw [Value.text, String.toList_ofList]
  exact (parse_of_lex hlex).2 (reads?_eq_some_iff.2 hp.derives.atom_disjunction)

theorem isName_of_lex {name : String} (h : lex name.toList = .ok [.ident name]) : IsName name :=
  isSound_of_lexFrom h (.ident name) (List.mem_singleton_self _)

/-- No integer in a value that assignments evaluate to is the least one. And every value of integers of
64 bits of which none is the least one is read back from its text: as an expression, and as the one
assignment to any name that is a single identifier and no keyword. -/
theorem value_round_trip :
    (∀ src found, evalAssignments src = .ok found →
        ∀ a ∈ found, ∀ n ∈ a.2.integers, Text.Integer.least < n)
      ∧ ∀ v : Value, (∀ n ∈ v.integers, Text.Integer.InRange n) →
        (∀ n ∈ v.integers, Text.Integer.least < n) →
          (∃ e, parse v.text.toList = .ok e ∧ ∀ env, e.eval env = .ok v)
            ∧ ∀ name, lex name.toList = .ok [.ident name] → name ∉ keywords →
              evalAssignments (name ++ " = " ++ v.text).toList = .ok [(name, v)] := by
  constructor
  · intro src found h a ha n hn
    exact (Value.hasLiteral_iff.1 (isName_of_evalAssignments h a ha).2.2 n hn).1
  · intro v hrange hleast
    have hv : v.HasLiteral := Value.hasLiteral_iff.2 fun n hn => ⟨hleast n hn, (hrange n hn).2⟩
    refine ⟨exists_parse_text hv, fun name hname hkeyword => ?_⟩
    have htext : (name ++ " = " ++ v.text).toList = name.toList ++ ' ' :: '=' :: ' ' :: v.chars := by
      simp [Value.text]
    rw [htext]
    exact evalAssignments_literal (isName_of_lex hname) hkeyword hv

/-- Quotes, a mark of a comment, a line feed, a negative integer, and tuples of one item and none. -/
def nestedValue : Value :=
  .tuple [.str "say \"x\" # \\ \n", .tuple [.int (-9223372036854775807)], .tuple [], .bool false]

theorem value_round_trip_nestedValue :
    (∀ n ∈ nestedValue.integers, Text.Integer.InRange n)
      ∧ (∀ n ∈ nestedValue.integers, Text.Integer.least < n)
      ∧ (∃ e, parse nestedValue.text.toList = .ok e ∧ ∀ env, e.eval env = .ok nestedValue)
      ∧ lex "speeds".toList = .ok [.ident "speeds"] ∧ "speeds" ∉ keywords
      ∧ evalAssignments ("speeds" ++ " = " ++ nestedValue.text).toList = .ok [("speeds", nestedValue)]
      ∧ ∀ a ∈ [("speeds", nestedValue)], ∀ n ∈ a.2.integers, Text.Integer.least < n := by
  have hrange : ∀ n ∈ nestedValue.integers, Text.Integer.InRange n := by decide +kernel
  have hleast : ∀ n ∈ nestedValue.integers, Text.Integer.least < n := by decide +kernel
  have hname : lex "speeds".toList = .ok [.ident "speeds"] := by cbv
  have hkeyword : "speeds" ∉ keywords := by decide
  obtain ⟨hexpression, hassignment⟩ := value_round_trip.2 nestedValue hrange hleast
  have hread := hassignment "speeds" hname hkeyword
  exact ⟨hrange, hleast, hexpression, hname, hkeyword, hread, value_round_trip.1 _ _ hread⟩

end Expr

end Configurator
