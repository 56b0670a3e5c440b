import SchemaCanvas.Proofs.Expr.Holes
import SchemaCanvas.Proofs.Number.Written
import SchemaCanvas.Render.Render

/-!
# Where numbers are shown

A number is shown by itself, by `String(x)`, in a template and as a child, and all of these give the
same text. For an integer below `10 ^ 21` the text is the numeral of the integer if that has 64 bits
with a sign, and otherwise that of the bound on its side.

* `Number.ShownAs` : every way to show a number gives a certain text;
* `Number.shownAs_integer` : the text of an integer.
-/

namespace SchemaCanvas

variable {k : Int}

/-- Every way to show a number gives a certain text. -/
structure Number.ShownAs (n : Number) (text : String) : Prop where
  display : Value.display (some (.num n)) = text
  /-- `String(x)`, unless the name is bound -/
  string (env : Env) (e : Expr) : env.isBound "String" = false →
    e.eval env = .ok (some (.num n)) →
    (Expr.call (.ident "String") [e]).eval env = .ok (some (.str text))
  /-- a hole for an expression -/
  expr (context : Json) (e : List Char) :
    Expr.evaluate (String.ofList e) context = .ok (some (.num n)) →
    (Template.Segment.expr e).fill context = text
  /-- a hole for a dot path -/
  path (context : Json) (p : List Char) :
    Json.atPath? (String.ofList p) context = some (.num n) →
    (Template.Segment.path p).fill context = text
  /-- a child that refers to the context -/
  refChild (r : Renderer) (inner : RenderFrame → Node → Option Output) (frame : RenderFrame)
    (ref : DataRef) : ref.resolve frame.context r.transforms = some (.num n) →
    r.renderItem inner frame (.ref ref) = some (.text text)
  /-- a child that is the number itself -/
  child (r : Renderer) (inner : RenderFrame → Node → Option Output) (frame : RenderFrame) :
    r.renderItem inner frame (.other (.num n)) = some (.text text)

theorem Number.shownAs_iff {n : Number} {text : String} :
    n.ShownAs text ↔ Json.numberText n = text := by
  refine ⟨fun h => h.display, ?_⟩
  rintro rfl
  exact {
    display := rfl
    string := fun env e hunbound he => by
      have hcallee : env.callee (.ident "String") = .builtin .string := by
        simp only [Env.callee, Expr.dottedName?, Expr.rootName?, hunbound]
        rfl
      simp only [Expr.eval, hcallee, Expr.evalList, he]
      rfl
    expr := fun _ _ h => Template.fill_expr h
    path := fun _ _ h => by rw [Template.Segment.fill, h]; rfl
    refChild := fun _ _ _ _ h => by rw [Renderer.renderItem, h]; rfl
    child := fun _ _ _ => rfl }

/-- **An integer below `10 ^ 21` is shown cut to 64 bits with a sign,** so it is shown exactly if it
has 64 bits with a sign. -/
theorem Number.shownAs_integer {n : Number} (h : n.whole? = some k)
    (hk : k.natAbs < Nat.pow 10 21) :
    n.ShownAs (toString (Word.cut k)) ∧
      (n.ShownAs (toString k) ↔ Word.minSigned ≤ k ∧ k ≤ Word.maxSigned) := by
  have htext := Json.numberText_of_whole? h hk
  refine ⟨shownAs_iff.2 htext, ?_⟩
  rw [shownAs_iff, htext, ← Word.cut_eq_self_iff]
  exact ⟨fun heq => Int.repr_injective heq, congrArg toString⟩

/-- The float `10 ^ 20` is shown as the greatest integer of 64 bits with a sign. -/
theorem Number.shownAs_integer_hundredQuintillion :
    (float 1e20 (by decide +kernel)).ShownAs "9223372036854775807" ∧
      ¬ (float 1e20 (by decide +kernel)).ShownAs "100000000000000000000" := by
  have hwhole : (float 1e20 (by decide +kernel)).whole? = some 100000000000000000000 := by
    decide +kernel
  obtain ⟨hshown, hexact⟩ := shownAs_integer hwhole (by decide)
  exact ⟨hshown, fun h => absurd (hexact.1 h).2 (by decide)⟩

/-- Not every integer below `10 ^ 21` is shown exactly: the greatest integer of 64 bits without a
sign is not. -/
theorem Number.not_shownAs_integer : ¬ ∀ (n : Number) (k : Int), n.whole? = some k →
    k.natAbs < Nat.pow 10 21 → n.ShownAs (toString k) := by
  intro h
  have hshown := h (int 18446744073709551615 (by decide)) _ rfl (by decide)
  rw [shownAs_iff, Json.numberText_of_whole? rfl (by decide)] at hshown
  exact absurd (Int.repr_injective hshown) (by decide)

end SchemaCanvas
