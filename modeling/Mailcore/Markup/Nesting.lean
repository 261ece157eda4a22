import Mailcore.Markup.Tokens

/-!
# Nesting

Tokens are well nested when every start tag of an element that has an end tag
has one, innermost first.
-/

namespace Mailcore
namespace Markup

/-- Elements without an end tag. -/
def isVoid (name : List Char) : Bool :=
  ["area", "base", "br", "col", "embed", "hr", "img", "input", "link", "meta",
    "source", "track", "wbr"].contains (String.ofList name)

/-- The elements open behind a token, innermost first; none where it ends one
that is not the innermost. -/
def nestStep : List (List Char) → Token → Option (List (List Char))
  | stack, .start name selfClosing =>
      some (if isVoid name || selfClosing then stack else name :: stack)
  | [], .stop _ => none
  | top :: rest, .stop name => if top = name then some rest else none
  | stack, .text _ => some stack
  | stack, .raw _ => some stack
  | stack, .comment => some stack

/-- The elements open behind some tokens. -/
def nest (stack : List (List Char)) (tokens : List Token) :
    Option (List (List Char)) :=
  tokens.foldlM nestStep stack

/-- Every element that is opened is closed, and elements nest. -/
def WellNested (tokens : List Token) : Prop :=
  nest [] tokens = some []

/-- A token opens an element that has an end tag. -/
def Token.opens : Token → Bool
  | .start name selfClosing => !(isVoid name || selfClosing)
  | _ => false

def Token.closes : Token → Bool
  | .stop _ => true
  | _ => false

@[simp] theorem nest_nil (stack : List (List Char)) : nest stack [] = some stack :=
  rfl

theorem nest_cons (stack : List (List Char)) (token : Token) (tokens : List Token) :
    nest stack (token :: tokens) =
      (nestStep stack token).bind fun stack => nest stack tokens :=
  rfl

theorem nest_append (stack : List (List Char)) (first second : List Token) :
    nest stack (first ++ second) =
      (nest stack first).bind fun stack => nest stack second := by
  unfold nest
  rw [List.foldlM_append]
  rfl

/-- One token more or less. -/
theorem length_nestStep
    {stack after : List (List Char)} {token : Token}
    (step : nestStep stack token = some after) :
    after.length + token.closes.toNat = stack.length + token.opens.toNat := by
  cases token with
  | start name selfClosing =>
      rw [nestStep, Option.some.injEq] at step
      subst step
      unfold Token.closes Token.opens
      split
      · next empty => simp [empty]
      · next full => simp [full]
  | stop name =>
      cases stack with
      | nil => cases step
      | cons top rest =>
          rw [nestStep] at step
          split_ifs at step
          obtain rfl := Option.some.inj step
          simp [Token.closes, Token.opens]
  | text | raw | comment =>
      rw [nestStep, Option.some.injEq] at step
      subst step
      rfl

/-- What is opened is closed or still open. -/
theorem length_nest
    {stack after : List (List Char)} {tokens : List Token}
    (nested : nest stack tokens = some after) :
    after.length + tokens.countP Token.closes =
      stack.length + tokens.countP Token.opens := by
  induction tokens generalizing stack with
  | nil =>
      obtain rfl := Option.some.inj nested
      rfl
  | cons token tokens inductionHypothesis =>
      rw [nest_cons, Option.bind_eq_some_iff] at nested
      obtain ⟨middle, step, rest⟩ := nested
      have one := length_nestStep step
      have others := inductionHypothesis rest
      rw [List.countP_cons, List.countP_cons]
      cases closing : token.closes <;> cases opening : token.opens <;>
        simp only [closing, opening, Bool.toNat_true, Bool.toNat_false, if_true,
          Bool.false_eq_true, if_false] at one ⊢ <;> omega

/-! ## Tokens that nest alike -/

/-- How many more elements some tokens open than they close. -/
def rise (tokens : List Token) : Int :=
  tokens.countP Token.opens - tokens.countP Token.closes

@[simp] theorem rise_nil : rise [] = 0 := rfl

theorem rise_append (first second : List Token) :
    rise (first ++ second) = rise first + rise second := by
  unfold rise
  rw [List.countP_append, List.countP_append]
  omega

theorem rise_of_nest
    {stack after : List (List Char)} {tokens : List Token}
    (nested : nest stack tokens = some after) :
    (after.length : Int) = stack.length + rise tokens := by
  have counted := length_nest nested
  unfold rise
  omega

/-- Neither the nesting nor the counts tell some tokens from others. -/
def Alike (first second : List Token) : Prop :=
  (∀ stack, nest stack first = nest stack second) ∧ rise first = rise second

theorem Alike.refl (tokens : List Token) : Alike tokens tokens :=
  ⟨fun _ => rfl, rfl⟩

theorem Alike.trans {first second third : List Token}
    (front : Alike first second) (back : Alike second third) : Alike first third :=
  ⟨fun stack => (front.1 stack).trans (back.1 stack), front.2.trans back.2⟩

theorem Alike.append_right {first second : List Token}
    (alike : Alike first second) (rest : List Token) :
    Alike (first ++ rest) (second ++ rest) := by
  refine ⟨fun stack => ?_, ?_⟩
  · rw [nest_append, nest_append, alike.1]
  · rw [rise_append, rise_append, alike.2]

/-- Tokens that close whatever they open change nothing. -/
theorem alike_append_of_flat {flat : List Token}
    (closed : ∀ stack, nest stack flat = some stack) (tokens : List Token) :
    Alike tokens (tokens ++ flat) := by
  refine ⟨fun stack => ?_, ?_⟩
  · rw [nest_append]
    simp only [closed]
    exact (Option.bind_fun_some _).symm
  · have counted := rise_of_nest (closed [])
    rw [rise_append]
    simp only [List.length_nil] at counted
    omega

/-- What surrounds an element does not matter to what is inside. -/
theorem nest_under {stack after : List (List Char)} {tokens : List Token}
    (nested : nest stack tokens = some after) (below : List (List Char)) :
    nest (stack ++ below) tokens = some (after ++ below) := by
  induction tokens generalizing stack with
  | nil =>
      obtain rfl := Option.some.inj nested
      rfl
  | cons token tokens inductionHypothesis =>
      rw [nest_cons, Option.bind_eq_some_iff] at nested
      obtain ⟨middle, step, rest⟩ := nested
      have first : nestStep (stack ++ below) token = some (middle ++ below) := by
        cases token with
        | start name selfClosing =>
            rw [nestStep, Option.some.injEq] at step ⊢
            rw [← step]
            split <;> rfl
        | stop name =>
            cases stack with
            | nil => cases step
            | cons top stack =>
                rw [nestStep] at step
                split_ifs at step with same
                obtain rfl := Option.some.inj step
                exact if_pos same
        | text | raw | comment =>
            rw [nestStep, Option.some.injEq] at step
            rw [step]
            rfl
      rw [nest_cons, first]
      exact inductionHypothesis rest

/-- Text opens and closes nothing. -/
theorem nest_text (stack : List (List Char)) (chars : List Char)
    (tokens : List Token) :
    nest stack (.text chars :: tokens) = nest stack tokens := by
  rw [nest_cons]
  cases stack <;> rfl

end Markup
end Mailcore
