import SchemaCanvas.Proofs.Expr.Made
import SchemaCanvas.Proofs.Expr.Unrolled
import Mathlib.Data.List.Chain

/-!
# How deep expressions go

Reading limits how many composite nodes an expression has and how deep expressions lie in one
another, and every step down into an expression takes from one of the two. So there is no way down
that is longer than both limits together, and evaluation never goes deeper either.

* `Expr.length_le_of_isChain` : ways down are no longer than the weight;
* `Expr.limits_of_parse?` : expressions that were read.
-/

namespace SchemaCanvas

namespace Expr

variable {e : Expr}

theorem length_le_of_isChain {chain : List Expr}
    (h : List.IsChain (fun whole part => part ∈ whole.parts) (e :: chain)) :
    chain.length ≤ e.weight := by
  induction chain generalizing e with
  | nil => exact Nat.zero_le _
  | cons part chain ih =>
    rw [List.isChain_cons_cons] at h
    exact Nat.lt_of_le_of_lt (ih h.2) (weight_lt_of_mem_parts h.1)

theorem exists_run_of_parse? {text : String} (h : parse? text = .ok e) :
    ∃ placed limit, Parser.run placed limit = .ok e := by
  rw [parse?] at h
  cases hscan : Token.scan text.toList with
  | error => rw [hscan] at h; cases h
  | ok placed =>
    rw [hscan] at h
    exact ⟨placed, text.utf8ByteSize, h⟩

/-- **Expressions that were read are within limits:** in their composite nodes, in the ways down
through them, and in how deep evaluation goes, whatever would happen further down. -/
theorem limits_of_parse? {text : String} (h : parse? text = .ok e) :
    e.composites ≤ 256 ∧
      (∀ chain, List.IsChain (fun whole part => part ∈ whole.parts) (e :: chain) →
        (e :: chain).length ≤ 256 + 128 + 1) ∧
      ∀ fallback env, evalWithin fallback (256 + 128 + 1) e env = e.eval env := by
  obtain ⟨placed, limit, hrun⟩ := exists_run_of_parse? h
  obtain ⟨-, hnesting, hcomposites⟩ := Parser.made_of_run hrun
  have hweight : e.weight < 256 + 128 := Nat.add_lt_add_of_le_of_lt hcomposites hnesting
  refine ⟨hcomposites, fun chain hchain => ?_, fun fallback env => ?_⟩
  · have := length_le_of_isChain hchain
    rw [List.length_cons]
    omega
  · exact evalWithin_eq_eval fallback (by omega) env

/-- The expression of `xs.map(x => [!x])`. -/
def mappedExpr : Expr :=
  call (member (ident "xs") "map" false) [lambda "x" (array [unary .not (ident "x")])]

theorem limits_of_parse?_mappedExpr :
    parse? "xs.map(x => [!x])" = .ok mappedExpr ∧
      mappedExpr.composites ≤ 256 ∧
      (∀ chain, List.IsChain (fun whole part => part ∈ whole.parts) (mappedExpr :: chain) →
        (mappedExpr :: chain).length ≤ 256 + 128 + 1) ∧
      ∀ fallback env, evalWithin fallback (256 + 128 + 1) mappedExpr env = mappedExpr.eval env := by
  have hscan : Token.scan "xs.map(x => [!x])".toList = .ok
      [⟨.ident "xs", 0⟩, ⟨.mark .dot, 2⟩, ⟨.ident "map", 3⟩, ⟨.mark .openParen, 6⟩,
        ⟨.ident "x", 7⟩, ⟨.mark .arrow, 9⟩, ⟨.mark .openBracket, 12⟩, ⟨.mark .bang, 13⟩,
        ⟨.ident "x", 14⟩, ⟨.mark .closeBracket, 15⟩, ⟨.mark .closeParen, 16⟩] := by rfl
  have h : parse? "xs.map(x => [!x])" = .ok mappedExpr := by
    rw [parse?, hscan]
    rfl
  exact ⟨h, limits_of_parse? h⟩

end Expr

end SchemaCanvas
