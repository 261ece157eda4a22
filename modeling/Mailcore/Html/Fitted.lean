import Mailcore.Html.Darkened
import Mailcore.Html.SafeMarks

/-!
# What the fitted layout keeps

Once loosened, a style asks for no fixed width, and a tag gives up one pixel
width at a time.
-/

namespace Mailcore
namespace Html

open Markup
open Text (splitOnceAt asciiLower parseUnsigned)

variable {floats : Floats}

/-! ## Styles -/

/-- No declaration of a style asks for fixed pixels. -/
def Loose (floats : Floats) (style : List Char) : Prop :=
  ∀ decl ∈ style.splitOn ';', pixelDecl floats decl = none

theorem fitStyle_of_loose {style : List Char} (loose : Loose floats style) (cell : Bool) :
    fitStyle floats cell style = style := by
  have same : (style.splitOn ';').map (fitDecl floats cell) = style.splitOn ';' := by
    conv_rhs => rw [← List.map_id (style.splitOn ';')]
    refine List.map_congr_left fun decl member => ?_
    rw [fitDecl, loose decl member]
    rfl
  rw [fitStyle, same, List.intercalate_splitOn]

theorem loose_append {first second : List Char}
    (left : Loose floats first) (right : Loose floats second) :
    Loose floats (first ++ ';' :: second) := by
  intro decl member
  rw [List.splitOn_append_cons_self] at member
  exact (List.mem_append.mp member).elim (left decl) (right decl)

theorem pixelDecl_of_colonless {decl : List Char} (colonless : splitOnceAt [':'] decl = none) :
    pixelDecl floats decl = none := by
  rw [pixelDecl, colonless]
  rfl

theorem pixelDecl_nil : pixelDecl floats [] = none := rfl

theorem loose_single {decl : List Char} (whole : ';' ∉ decl)
    (none_ : pixelDecl floats decl = none) : Loose floats decl := by
  intro piece member
  have single : decl.splitOn ';' = [decl] := by
    have cut := @List.splitOn_intercalate _ [decl] _ _ ';' (by simpa using whole) (by simp)
    rwa [List.intercalate_singleton] at cut
  rw [single] at member
  rw [List.mem_singleton.mp member]
  exact none_

/-- A cap is no fixed width. -/
theorem loose_capOf {width : List Char} (whole : ';' ∉ width) :
    Loose floats (capOf width) := by
  have shape : capOf width =
      "width:100%".toList ++ ';' :: ("max-width:".toList ++ (width ++ "px".toList)) := rfl
  rw [shape]
  refine loose_append (loose_single (by decide) ?_) (loose_single ?_ ?_)
  · rfl
  · simp only [List.mem_append, not_or]
    exact ⟨by decide, whole, by decide⟩
  · have cut : splitOnceAt [':'] ("max-width:".toList ++ (width ++ "px".toList)) =
        some ("max-width".toList, width ++ "px".toList) :=
      @Text.splitOnceAt_separator _ _ ':' "max-width".toList (by decide) _
    rw [pixelDecl, cut]
    have other : asciiLower (trim "max-width".toList) = "max-width".toList := by decide
    simp only [Option.bind_eq_bind, Option.bind_some, other]
    rfl

theorem semicolon_notMem_displayPx (px : floats.Px) : ';' ∉ floats.displayPx px := by
  intro member
  rcases floats.plain px _ member with letter | dot | sign
  · exact absurd letter (by decide)
  · exact absurd dot (by decide)
  · exact absurd sign (by decide)

theorem loose_fitDecl {decl : List Char} (whole : ';' ∉ decl) (cell : Bool) :
    Loose floats (fitDecl floats cell decl) := by
  unfold fitDecl
  split
  · split
    · exact loose_single (by simp) pixelDecl_nil
    · exact loose_capOf (semicolon_notMem_displayPx _)
  · next none_ => exact loose_single whole none_

theorem loose_intercalate {pieces : List (List Char)}
    (loose : ∀ piece ∈ pieces, Loose floats piece) :
    Loose floats ([';'].intercalate pieces) := by
  induction pieces with
  | nil => exact loose_single (by simp) pixelDecl_nil
  | cons piece pieces inductionHypothesis =>
      have others := inductionHypothesis fun other member =>
        loose other (List.mem_cons_of_mem _ member)
      by_cases empty : pieces = []
      · rw [empty, List.intercalate_singleton]
        exact loose piece List.mem_cons_self
      · rw [List.intercalate_cons_of_ne_nil empty, List.append_assoc]
        exact loose_append (loose piece List.mem_cons_self) others

/-- Once is enough for a style. -/
theorem loose_fitStyle (cell : Bool) (style : List Char) :
    Loose floats (fitStyle floats cell style) := by
  refine loose_intercalate fun piece member => ?_
  obtain ⟨decl, inside, rfl⟩ := List.mem_map.mp member
  exact loose_fitDecl (fun has => (Text.mem_of_mem_splitOn inside has).2 rfl) cell

theorem cleanValue_fitDecl {decl : List Char} (clean : CleanValue decl) (cell : Bool) :
    CleanValue (fitDecl floats cell decl) := by
  unfold fitDecl
  split
  · next min px _ =>
    split
    · exact cleanValue_iff.mpr (by simp)
    · have display : CleanValue (floats.displayPx px) := by
        rw [cleanValue_iff]
        intro char member
        rcases floats.plain px char member with letter | rfl | rfl
        · exact plainChar_of_isAlphanum letter
        · decide
        · decide
      exact (cleanValue_of_all (by decide)).append
        (display.append (cleanValue_of_all (by decide)))
  · exact clean

theorem cleanValue_fitStyle {style : List Char} (clean : CleanValue style) (cell : Bool) :
    CleanValue (fitStyle floats cell style) :=
  cleanValue_declarations (fun _ clean => cleanValue_fitDecl clean cell) clean

/-- A value that does not end like the opener of another attribute. -/
def Shut (value : List Char) : Prop :=
  value.getLast? ≠ some '='

theorem not_opener_suffix {key value : List Char} (shut : Shut value) :
    ¬opener key <:+ value := by
  rintro ⟨front, rfl⟩
  refine shut ?_
  unfold opener
  rw [← List.cons_append, ← List.append_assoc, List.getLast?_concat]

theorem getLast?_capOf (width : List Char) : (capOf width).getLast? = some 'x' := by
  have nonempty : "px".toList ≠ [] := by decide
  have last : "px".toList.getLast? = some 'x' := by decide
  unfold capOf
  generalize "px".toList = px at nonempty last
  generalize "width:100%;max-width:".toList = front
  rw [← List.append_assoc, List.getLast?_append_of_ne_nil _ nonempty, last]

theorem shut_cons_iff (piece rest : List Char) :
    Shut (piece ++ ';' :: rest) ↔ Shut rest := by
  unfold Shut
  cases rest with
  | nil => simp
  | cons char rest =>
      rw [List.getLast?_append_of_ne_nil _ (List.cons_ne_nil _ _),
        List.getLast?_cons_of_ne_nil (List.cons_ne_nil _ _)]

theorem shut_fitStyle {style : List Char} (shut : Shut style) (cell : Bool) :
    Shut (fitStyle floats cell style) := by
  have decl : ∀ decl, ¬Shut (fitDecl floats cell decl) →
      fitDecl floats cell decl = decl := by
    intro decl open_
    unfold Shut fitDecl at open_
    unfold fitDecl
    split at open_
    · split at open_
      · exact absurd (by simp) open_
      · refine absurd ?_ open_
        rw [getLast?_capOf]
        decide
    · rfl
  have pieces : ∀ pieces : List (List Char),
      ¬Shut ([';'].intercalate (pieces.map (fitDecl floats cell))) →
        ¬Shut ([';'].intercalate pieces) := by
    intro pieces
    induction pieces with
    | nil => exact id
    | cons piece pieces inductionHypothesis =>
        intro open_
        by_cases empty : pieces = []
        · rw [empty, List.map_singleton, List.intercalate_singleton] at open_
          rw [decl piece open_] at open_
          rwa [empty, List.intercalate_singleton]
        · rw [List.map_cons,
            List.intercalate_cons_of_ne_nil (by simpa using empty), List.append_assoc,
            List.singleton_append, shut_cons_iff] at open_
          rw [List.intercalate_cons_of_ne_nil empty, List.append_assoc,
            List.singleton_append, shut_cons_iff]
          exact inductionHypothesis open_
  by_contra open_
  have same := pieces _ open_
  rw [List.intercalate_splitOn] at same
  exact same shut

/-! ## Pixel widths -/

/-- The pixels of a `width` value, bare digits only. -/
def pixelValue (value : List Char) : Option Nat :=
  if value = [] ∨ value.all Char.isDigit = false then none
  else parseUnsigned 10 (2 ^ 32) value

/-- The pixel width that is found, and the attributes around it. -/
def seenPixel (attrs : List Attribute) :
    Option (List Attribute × List Attribute × Nat) :=
  (seen "width".toList attrs).bind fun found =>
    (pixelValue found.2.1).map fun width => (found.1, found.2.2, width)

theorem pixelAttr_eq (attrs : List Char) :
    pixelAttr attrs = (findAttr attrs "width".toList).bind fun found =>
      (pixelValue found.2.1).map fun width => (found.1, found.2.2, width) := by
  unfold pixelAttr pixelValue
  cases findAttr attrs "width".toList with
  | none => rfl
  | some found =>
      obtain ⟨front, value, back⟩ := found
      simp only [Option.bind_eq_bind, Option.bind_some]
      split
      · rfl
      · cases parseUnsigned 10 (2 ^ 32) value <;> rfl

theorem pixelValue_opener (name : List Char) : pixelValue (opener name) = none := by
  unfold pixelValue opener
  rw [if_pos]
  exact .inr rfl

theorem safeKey_width : safeKey "width".toList := by decide

theorem safeKey_style : safeKey "style".toList := by decide

theorem pixelAttr_attrsText
    {attrs : List Attribute} (clean : CleanAttrs attrs)
    {tail : List Char} (plain : '"' ∉ tail) :
    pixelAttr (attrsText attrs ++ tail) = (seenPixel attrs).map fun found =>
      (attrsText found.1, attrsText found.2.1 ++ tail, found.2.2) := by
  have found := findAttr_attrsText safeKey_width clean plain
  rw [pixelAttr_eq]
  unfold seenPixel
  cases which : seen "width".toList attrs with
  | some triple =>
      obtain ⟨front, value, back⟩ := triple
      rw [which] at found
      change findAttr _ _ = _ at found
      rw [found]
      simp only [Option.bind_some]
      cases pixelValue value <;> rfl
  | none =>
      rw [which] at found
      cases inText : findAttr (attrsText attrs ++ tail) "width".toList with
      | none => rfl
      | some triple =>
          obtain ⟨front, value, back⟩ := triple
          obtain ⟨-, name, -, rfl⟩ := found _ _ _ inText
          simp only [Option.bind_some]
          rw [pixelValue_opener]
          rfl

theorem eq_of_seenPixel {attrs front back : List Attribute} {width : Nat}
    (found : seenPixel attrs = some (front, back, width)) :
    ∃ value, attrs = front ++ ("width".toList, value) :: back ∧
      pixelValue value = some width := by
  unfold seenPixel at found
  obtain ⟨⟨front_, value, back_⟩, first, second⟩ := Option.bind_eq_some_iff.mp found
  obtain ⟨width_, read, same⟩ := Option.map_eq_some_iff.mp second
  obtain ⟨rfl, rfl, rfl⟩ : front_ = front ∧ back_ = back ∧ width_ = width := by
    simpa using same
  exact ⟨value, eq_of_seen first, read⟩

/-! ## Tags -/

section Tags

variable (floats)

/-- The cap a tag gets for its pixel width, and the attributes without it. -/
def droppedWidth (cell : Bool) (attrs : List Attribute) :
    List Char × List Attribute :=
  match seenPixel attrs with
  | some (front, back, width) =>
      (if cell then [] else capOf width.repr.toList ++ [';'], front ++ back)
  | none => ([], attrs)

/-- The attributes with the style loosened, or with the cap as their style. -/
def loosened (cell : Bool) (cap : List Char) (attrs : List Attribute) : List Attribute :=
  match seen "style".toList attrs with
  | some (front, value, back) =>
      front ++ ("style".toList, cap ++ fitStyle floats cell value) :: back
  | none => if cap = [] then attrs else attrs ++ [("style".toList, cap)]

/-- A tag as `fit_widths` leaves it: a cap that is new stands at the end, behind
a slash where there is one. -/
def fitted (tag : OpenTag) : OpenTag :=
  if tag.name = "img".toList then tag
  else
    let cell := isCell tag.name
    let (cap, attrs) := droppedWidth cell tag.attrs
    match seen "style".toList attrs, tag.late with
    | none, some late =>
        if cap = [] then { tag with attrs }
        else { tag with attrs, late := some (late ++ [("style".toList, cap)]) }
    | _, _ => { tag with attrs := loosened floats cell cap attrs }

variable {floats}

/-- Attributes among which a value is not taken for an attribute: there is no
`width`, or every value is shut. -/
def Settled (attrs : List Attribute) : Prop :=
  (∀ given ∈ attrs, given.1 ≠ "width".toList) ∨ ∀ given ∈ attrs, Shut given.2

theorem droppedWidth_spec (cell : Bool) {attrs : List Attribute}
    (clean : CleanAttrs attrs) {tail : List Char} (plain : '"' ∉ tail) :
    dropWidth cell (attrsText attrs ++ tail) =
      ((droppedWidth cell attrs).1, attrsText (droppedWidth cell attrs).2 ++ tail) := by
  unfold dropWidth droppedWidth
  rw [pixelAttr_attrsText clean plain]
  cases seenPixel attrs with
  | none => rfl
  | some found =>
      obtain ⟨front, back, width⟩ := found
      simp [attrsText_append]

theorem clean_droppedWidth (cell : Bool) {attrs : List Attribute}
    (clean : CleanAttrs attrs) : CleanAttrs (droppedWidth cell attrs).2 := by
  unfold droppedWidth
  split
  · next front back width found =>
    obtain ⟨value, rfl, -⟩ := eq_of_seenPixel found
    intro given member
    refine clean given ?_
    simp only [List.mem_append, List.mem_cons] at member ⊢
    tauto
  · exact clean

theorem mem_droppedWidth {cell : Bool} {attrs : List Attribute} {given : Attribute}
    (member : given ∈ (droppedWidth cell attrs).2) : given ∈ attrs := by
  unfold droppedWidth at member
  split at member
  · next front back width found =>
    obtain ⟨value, rfl, -⟩ := eq_of_seenPixel found
    simp only [List.mem_append, List.mem_cons] at member ⊢
    tauto
  · exact member

/-- Either there is no cap, or there was a pixel width. -/
theorem cap_cases (cell : Bool) (attrs : List Attribute) :
    (droppedWidth cell attrs).1 = [] ∨
      cell = false ∧ ∃ front back width, seenPixel attrs = some (front, back, width) ∧
        (droppedWidth cell attrs).1 = capOf width.repr.toList ++ [';'] := by
  unfold droppedWidth
  cases found : seenPixel attrs with
  | none => exact .inl rfl
  | some triple =>
      obtain ⟨front, back, width⟩ := triple
      cases cell with
      | true => exact .inl rfl
      | false => exact .inr ⟨rfl, front, back, width, rfl, rfl⟩

theorem fitStyle_opener {name : List Char} (safe : safeKey name) (cell : Bool) :
    fitStyle floats cell (opener name) = opener name := by
  refine declarations_opener safe fun decl colonless => ?_
  unfold fitDecl
  rw [pixelDecl_of_colonless colonless]

/-- Where there is a cap no value is taken for an attribute. -/
theorem shut_of_cap {cell : Bool} {attrs : List Attribute} (settled : Settled attrs)
    (capped : (droppedWidth cell attrs).1 ≠ []) :
    ∀ given ∈ (droppedWidth cell attrs).2, Shut given.2 := by
  obtain ⟨-, front, back, width, found, -⟩ := (cap_cases cell attrs).resolve_left capped
  obtain ⟨value, same, -⟩ := eq_of_seenPixel found
  rcases settled with missing | shut
  · exact absurd rfl (missing ("width".toList, value) (by simp [same]))
  · exact fun given member => shut given (mem_droppedWidth member)

/-- `fit_widths` does with the attribute text what is done with the tag. -/
theorem maps_fitted {tag : OpenTag} (clean : tag.Clean) (tight : tag.Tight)
    (settled : tag.name ≠ "img".toList → Settled tag.attrs) :
    Maps (fitTag floats) (fitted floats) tag := by
  refine ⟨?_, ?_, ?_⟩
  · unfold fitted
    split
    · rfl
    · dsimp only
      split
      · split <;> rfl
      · rfl
  · unfold fitTag fitted
    by_cases image : tag.name = "img".toList
    · rw [if_pos image, if_pos image]
      rfl
    · rw [if_neg image, if_neg image]
      have plain := quote_notMem_lateText tight
      have cleanAfter := clean_droppedWidth (isCell tag.name) clean.attrs
      have found := findAttr_attrsText safeKey_style cleanAfter plain
      have shut := @shut_of_cap (isCell tag.name) _ (settled image)
      dsimp only
      rw [OpenTag.text, droppedWidth_spec _ clean.attrs plain]
      dsimp only
      rw [Option.getD_some]
      generalize droppedWidth (isCell tag.name) tag.attrs = dropped at *
      obtain ⟨cap, attrs⟩ := dropped
      dsimp only at found shut ⊢
      unfold fitStyleAttr loosened
      cases which : seen "style".toList attrs with
      | some triple =>
          obtain ⟨front, value, back⟩ := triple
          rw [which] at found
          change findAttr _ _ = _ at found
          rw [found]
          simp [OpenTag.text, attrsText_append, attrsText_cons]
      | none =>
          rw [which] at found
          cases inText : findAttr (attrsText attrs ++ lateText tag.late) "style".toList with
          | none =>
              by_cases empty : cap = []
              · cases late : tag.late with
                | none => simp [empty, OpenTag.text]
                | some late_ => simp [empty, OpenTag.text]
              · rcases tight with late | late
                · simp [empty, late, OpenTag.text, lateText, attrsText]
                · simp [empty, late, OpenTag.text, lateText, attrsText]
          | some triple =>
              obtain ⟨front, value, back⟩ := triple
              obtain ⟨⟨given, member, ends⟩, name, safe, rfl⟩ := found _ _ _ inText
              have empty : cap = [] := by
                by_contra capped
                exact not_opener_suffix (shut capped given member) ends
              have same : front ++ (spelled "style".toList
                  (cap ++ fitStyle floats (isCell tag.name) (opener name)) ++ back) =
                    attrsText attrs ++ lateText tag.late := by
                rw [empty, List.nil_append, fitStyle_opener safe]
                exact (eq_of_findAttr inText).symm
              dsimp only
              rw [same]
              cases late : tag.late with
              | none => simp [empty, OpenTag.text]
              | some late_ => simp [empty, OpenTag.text]
  · intro bare
    have dropped : droppedWidth (isCell tag.name) [] = ([], []) := rfl
    unfold fitted
    rw [bare]
    dsimp only
    rw [dropped]
    cases tag
    cases bare
    dsimp only
    split
    · rfl
    · unfold loosened
      split <;> rfl

/-! ## Settled attributes -/

/-- The value of the first attribute of a name. -/
def firstValue (key : List Char) (attrs : List Attribute) : Option (List Char) :=
  (attrs.find? fun given => given.1 = key).map (·.2)

theorem seen_of_missing {key : List Char} {attrs : List Attribute}
    (missing : ∀ given ∈ attrs, given.1 ≠ key) : seen key attrs = none := by
  cases found : seen key attrs with
  | none => rfl
  | some triple =>
      obtain ⟨front, value, back⟩ := triple
      exact absurd rfl (missing (key, value) (by simp [eq_of_seen found]))

theorem seen_value {key : List Char} {attrs : List Attribute}
    (shut : ∀ given ∈ attrs, Shut given.2) :
    (seen key attrs).map (·.2.1) = firstValue key attrs := by
  induction attrs with
  | nil => rfl
  | cons given attrs inductionHypothesis =>
      have others := inductionHypothesis fun other member =>
        shut other (List.mem_cons_of_mem _ member)
      unfold firstValue at others ⊢
      obtain ⟨name, value⟩ := given
      rw [seen]
      by_cases same : name = key
      · simp [same]
      · rw [if_neg same, if_neg (not_opener_suffix (shut _ List.mem_cons_self)),
          List.find?_cons_of_neg (by simpa using same), ← others, Option.map_map]
        rfl

/-- Among settled attributes the first width counts. -/
theorem seenPixel_value {attrs : List Attribute} (settled : Settled attrs) :
    (seenPixel attrs).map (·.2.2) =
      (firstValue "width".toList attrs).bind pixelValue := by
  have value : (seen "width".toList attrs).map (·.2.1) =
      firstValue "width".toList attrs := by
    rcases settled with missing | shut
    · rw [seen_of_missing missing, firstValue, List.find?_eq_none.mpr (by simpa using missing)]
      rfl
    · exact seen_value shut
  rw [← value]
  unfold seenPixel
  cases seen "width".toList attrs with
  | none => rfl
  | some triple =>
      obtain ⟨front, width, back⟩ := triple
      simp only [Option.bind_some, Option.map_some]
      cases pixelValue width <;> rfl

theorem settled_droppedWidth {attrs : List Attribute} (settled : Settled attrs)
    (cell : Bool) : Settled (droppedWidth cell attrs).2 :=
  settled.imp (fun missing given member => missing given (mem_droppedWidth member))
    fun shut given member => shut given (mem_droppedWidth member)

theorem shut_capped {cell : Bool} {attrs : List Attribute} {value : List Char}
    (shut : Shut value) : Shut ((droppedWidth cell attrs).1 ++ value) := by
  rcases cap_cases cell attrs with empty | ⟨-, -, -, width, -, same⟩
  · rwa [empty]
  · rw [same, List.append_assoc, List.singleton_append, shut_cons_iff]
    exact shut

theorem mem_loosened {cell : Bool} {cap : List Char} {attrs : List Attribute}
    {given : Attribute} (member : given ∈ loosened floats cell cap attrs) :
    given ∈ attrs ∨ given.1 = "style".toList ∧
      ((∃ value, ("style".toList, value) ∈ attrs ∧
        given.2 = cap ++ fitStyle floats cell value) ∨ cap ≠ [] ∧ given.2 = cap) := by
  unfold loosened at member
  split at member
  · next front value back found =>
    have same := eq_of_seen found
    rcases List.mem_append.mp member with before | this
    · exact .inl (by simp [same, before])
    · rcases List.mem_cons.mp this with rfl | behind
      · exact .inr ⟨rfl, .inl ⟨value, by simp [same], rfl⟩⟩
      · exact .inl (by simp [same, behind])
  · split at member
    · exact .inl member
    · next capped =>
      rcases List.mem_append.mp member with before | this
      · exact .inl before
      · rw [List.mem_singleton.mp this]
        exact .inr ⟨rfl, .inr ⟨capped, rfl⟩⟩

/-- The attributes of a fitted tag, unless its cap stands behind a slash. -/
def fittedAttrs (floats : Floats) (cell : Bool) (attrs : List Attribute) :
    List Attribute :=
  loosened floats cell (droppedWidth cell attrs).1 (droppedWidth cell attrs).2

theorem settled_fittedAttrs {cell : Bool} {attrs : List Attribute}
    (settled : Settled attrs) : Settled (fittedAttrs floats cell attrs) := by
  rcases settled with missing | shut
  · refine .inl fun given member => ?_
    rcases mem_loosened member with before | ⟨name, -⟩
    · exact missing given (mem_droppedWidth before)
    · rw [name]
      decide
  · refine .inr fun given member => ?_
    rcases mem_loosened member with before | ⟨-, ⟨value, inside, same⟩ | ⟨-, same⟩⟩
    · exact shut given (mem_droppedWidth before)
    · rw [same]
      exact shut_capped (shut_fitStyle (shut _ (mem_droppedWidth inside)) cell)
    · rw [same]
      have capped := @shut_capped cell attrs [] (by simp [Shut])
      rwa [List.append_nil] at capped

theorem cleanValue_cap (cell : Bool) (attrs : List Attribute) :
    CleanValue (droppedWidth cell attrs).1 := by
  rcases cap_cases cell attrs with empty | ⟨-, -, -, width, -, same⟩
  · rw [empty]
    exact cleanValue_iff.mpr (by simp)
  · rw [same]
    have inner : CleanValue (capOf width.repr.toList) :=
      (cleanValue_of_all (by decide)).append
        ((cleanValue_repr width).append (cleanValue_of_all (by decide)))
    exact inner.append (cleanValue_of_all (by decide))

theorem clean_fittedAttrs {cell : Bool} {attrs : List Attribute}
    (clean : CleanAttrs attrs) : CleanAttrs (fittedAttrs floats cell attrs) := by
  intro given member
  rcases mem_loosened member with before | ⟨name, ⟨value, inside, same⟩ | ⟨-, same⟩⟩
  · exact clean given (mem_droppedWidth before)
  · rw [name, same]
    exact ⟨safeKey_style, (cleanValue_cap cell attrs).append
      (cleanValue_fitStyle (clean _ (mem_droppedWidth inside)).2 cell)⟩
  · rw [name, same]
    exact ⟨safeKey_style, cleanValue_cap cell attrs⟩

theorem clean_fitted {tag : OpenTag} (clean : tag.Clean) : (fitted floats tag).Clean := by
  have dropped := clean_droppedWidth (isCell tag.name) clean.attrs
  unfold fitted
  split
  · exact clean
  · dsimp only
    split
    · next late styleless same =>
      split
      · exact ⟨clean.name, dropped, clean.late⟩
      · refine ⟨clean.name, dropped, ?_⟩
        rintro _ ⟨rfl⟩ given member
        rcases List.mem_append.mp member with before | this
        · exact clean.late late same given before
        · rw [List.mem_singleton.mp this]
          exact ⟨safeKey_style, cleanValue_cap _ _⟩
    · exact ⟨clean.name, clean_fittedAttrs clean.attrs, clean.late⟩

theorem firstValue_loosened (cell : Bool) (cap : List Char) (attrs : List Attribute) :
    firstValue "width".toList (loosened floats cell cap attrs) =
      firstValue "width".toList attrs := by
  have other : decide ("style".toList = "width".toList) = false := by decide
  unfold loosened firstValue
  split
  · next front value back found =>
    rw [eq_of_seen found, List.find?_append, List.find?_append, List.find?_cons,
      List.find?_cons, other]
  · split
    · rfl
    · rw [List.find?_append, List.find?_cons, other]
      simp

/-! ## Once is enough -/

/-- An attribute text that asks for no fixed width. -/
structure Narrow (floats : Floats) (text : List Char) : Prop where
  width : pixelAttr text = none
  style : ∀ front style back, findAttr text "style".toList = some (front, style, back) →
    Loose floats style

theorem fitTag_of_narrow {text : List Char} (narrow : Narrow floats text)
    (name : List Char) : (fitTag floats name text).getD text = text := by
  unfold fitTag
  split
  · rfl
  · have none_ : dropWidth (isCell name) text = ([], text) := by
      rw [dropWidth, narrow.width]
    dsimp only
    rw [none_, Option.getD_some]
    dsimp only
    unfold fitStyleAttr
    cases found : findAttr text "style".toList with
    | none => rfl
    | some triple =>
        obtain ⟨front, style, back⟩ := triple
        dsimp only
        rw [fitStyle_of_loose (narrow.style _ _ _ found), List.nil_append]
        exact (eq_of_findAttr found).symm

theorem tagWidth_of_narrow {text : List Char} (narrow : Narrow floats text)
    (name : List Char) : tagWidth floats name text = 0 := by
  unfold tagWidth
  split
  · rfl
  · rw [narrow.width]
    cases found : findAttr text "style".toList with
    | none => rfl
    | some triple =>
        obtain ⟨front, style, back⟩ := triple
        have empty : (style.splitOn ';').filterMap (pixelDecl floats) = [] :=
          List.filterMap_eq_nil_iff.mpr (narrow.style _ _ _ found)
        dsimp only
        rw [empty]
        rfl

theorem seen_replace {key value other : List Char} {attrs front back : List Attribute}
    (found : seen key attrs = some (front, value, back)) :
    seen key (front ++ (key, other) :: back) = some (front, other, back) := by
  induction attrs generalizing front with
  | nil => cases found
  | cons given attrs inductionHypothesis =>
      obtain ⟨name, first⟩ := given
      rw [seen] at found
      split_ifs at found with same ends
      · obtain ⟨rfl, rfl, rfl⟩ : [] = front ∧ first = value ∧ attrs = back := by
          simpa using found
        exact if_pos rfl
      · obtain ⟨⟨inner, rest⟩, within, equal⟩ := Option.map_eq_some_iff.mp found
        obtain ⟨rfl, rfl⟩ := Prod.mk.inj equal
        rw [List.cons_append, seen, if_neg same, if_neg ends, inductionHypothesis within]
        rfl

theorem seen_append {key value : List Char} {attrs : List Attribute}
    (shut : ∀ given ∈ attrs, Shut given.2) (none_ : seen key attrs = none) :
    seen key (attrs ++ [(key, value)]) = some (attrs, value, []) := by
  induction attrs with
  | nil => exact if_pos rfl
  | cons given attrs inductionHypothesis =>
      obtain ⟨name, first⟩ := given
      have plain := @not_opener_suffix key _ (shut _ List.mem_cons_self)
      rw [seen] at none_
      split_ifs at none_ with same
      · rw [List.cons_append, seen, if_neg same, if_neg plain,
          inductionHypothesis (fun other member => shut other (List.mem_cons_of_mem _ member))
            (Option.map_eq_none_iff.mp none_)]
        rfl

/-- The style that a fitted tag shows is loose. -/
theorem loose_fittedAttrs {cell : Bool} {attrs : List Attribute}
    (settled : Settled attrs) {front back : List Attribute} {style : List Char}
    (found : seen "style".toList (fittedAttrs floats cell attrs) =
      some (front, style, back)) : Loose floats style := by
  have capped {value : List Char} (loose : Loose floats value) :
      Loose floats ((droppedWidth cell attrs).1 ++ value) := by
    rcases cap_cases cell attrs with empty | ⟨-, -, -, width, -, same⟩
    · rwa [empty]
    · rw [same, List.append_assoc]
      refine loose_append (loose_capOf ?_) loose
      intro member
      exact absurd (Text.isDigit_of_mem_repr member) (by decide)
  unfold fittedAttrs loosened at found
  cases which : seen "style".toList (droppedWidth cell attrs).2 with
  | some triple =>
      obtain ⟨first, value, last⟩ := triple
      rw [which] at found
      dsimp only at found
      rw [seen_replace which] at found
      obtain ⟨-, rfl, -⟩ := Prod.mk.injEq .. ▸ Option.some.inj found
      exact capped (loose_fitStyle cell value)
  | none =>
      rw [which] at found
      dsimp only at found
      split at found
      · rw [which] at found
        cases found
      · next full =>
        rw [seen_append (shut_of_cap settled full) which] at found
        obtain ⟨-, rfl, -⟩ := Prod.mk.injEq .. ▸ Option.some.inj found
        have alone := @capped [] (loose_single (by simp) pixelDecl_nil)
        rwa [List.append_nil] at alone

/-- A tag whose only pixel width is gone asks for none. -/
theorem narrow_fittedAttrs {cell : Bool} {attrs : List Attribute}
    (clean : CleanAttrs attrs) (settled : Settled attrs)
    (once : seenPixel (droppedWidth cell attrs).2 = none)
    {tail : List Char} (plain : '"' ∉ tail) :
    Narrow floats (attrsText (fittedAttrs floats cell attrs) ++ tail) := by
  have cleanAfter := @clean_fittedAttrs floats cell attrs clean
  constructor
  · have value := seenPixel_value (@settled_fittedAttrs floats cell attrs settled)
    rw [fittedAttrs, firstValue_loosened,
      ← seenPixel_value (settled_droppedWidth settled cell), once] at value
    rw [pixelAttr_attrsText cleanAfter plain]
    exact Option.map_eq_none_iff.mpr (Option.map_eq_none_iff.mp value)
  · intro front style back inText
    have found := findAttr_attrsText safeKey_style cleanAfter plain
    cases which : seen "style".toList (fittedAttrs floats cell attrs) with
    | some triple =>
        obtain ⟨first, value, last⟩ := triple
        rw [which] at found
        change findAttr _ _ = _ at found
        rw [found] at inText
        obtain ⟨-, rfl, -⟩ := Prod.mk.injEq .. ▸ Option.some.inj inText
        exact loose_fittedAttrs settled which
    | none =>
        rw [which] at found
        obtain ⟨-, name, safe, rfl⟩ := found _ _ _ inText
        refine loose_single (notMem_opener safe (by decide) (by decide) (by decide)) ?_
        exact pixelDecl_of_colonless (Text.splitOnceAt_none (List.mem_singleton_self ':')
          (notMem_opener safe (by decide) (by decide) (by decide)))

/-! ## The frame -/

/-- Attributes that carry widths. -/
def widthKeys : List (List Char) :=
  ["width".toList, "style".toList]

theorem others_droppedWidth (cell : Bool) (attrs : List Attribute) :
    others widthKeys (droppedWidth cell attrs).2 = others widthKeys attrs := by
  unfold droppedWidth
  split
  · next front back width found =>
    obtain ⟨value, rfl, -⟩ := eq_of_seenPixel found
    rw [others_append, others_append, others_cons (by decide)]
  · rfl

theorem others_loosened {keys : List (List Char)} (inside : asciiLower "style".toList ∈ keys)
    (cell : Bool) (cap : List Char) (attrs : List Attribute) :
    others keys (loosened floats cell cap attrs) = others keys attrs := by
  unfold loosened
  split
  · next front value back found =>
    rw [eq_of_seen found, others_append, others_append, others_cons inside,
      others_cons inside]
  · split
    · rfl
    · rw [others_append, others_cons inside]
      exact List.append_nil _

theorem others_fittedAttrs (cell : Bool) (attrs : List Attribute) :
    others widthKeys (fittedAttrs floats cell attrs) = others widthKeys attrs :=
  (others_loosened (by decide) _ _ _).trans (others_droppedWidth _ _)

end Tags

end Html
end Mailcore
