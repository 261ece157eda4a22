import Mailcore.Html.Fitted

/-!
# What the reader's rewrites touch

Over the output of the sanitizer, the fitted layout changes widths and styles
only, and the dark rewrite colours only.
-/

namespace Mailcore
namespace Html

open Markup
open Dark (colorKeys darkenColors sameBut_darkenColors)
open Text (asciiLower)

/-- What the rewrites of the reader may do to a document. -/
structure RewritesOnly (floats : Floats) (html : List Char) : Prop where
  /-- Fitting changes widths and styles only. -/
  fit : SameBut widthKeys html (fitWidths floats html)
  /-- Darkening changes colours only. -/
  dark : SameBut colorKeys html (darkenColors floats html)
  /-- A fitted layout asks for no width. -/
  narrow : layoutWidth floats (fitWidths floats html) = 0
  /-- Fitting twice is fitting once. -/
  once : fitWidths floats (fitWidths floats html) = fitWidths floats html

/-- A tag with a pixel width has only one, and does not close itself. -/
def Fits (html : List Char) : Prop :=
  ∀ found ∈ tags html, found.1 = "img".toList ∨
    ∀ front back width, pixelAttr found.2 = some (front, back, width) →
      pixelAttr (front ++ back) = none ∧ found.2.getLast? ≠ some '/'

/-! ## Tags of the output -/

/-- A tag as the sanitizer writes it. -/
structure OpenTag.Output (tag : OpenTag) : Prop where
  clean : tag.Clean
  tight : tag.Tight
  settled : tag.name ≠ "img".toList → Settled tag.attrs
  badge : tag.late ≠ none →
    isCell tag.name = false ∧ ∀ given ∈ tag.attrs, given.1 ≠ "style".toList

/-- A tag gives up all it asks for when it is fitted once. -/
def OpenTag.Fits (tag : OpenTag) : Prop :=
  tag.name = "img".toList ∨
    ∀ front back width, seenPixel tag.attrs = some (front, back, width) →
      seenPixel (front ++ back) = none ∧ tag.late = none

theorem OpenTag.fits_iff {tag : OpenTag} (output : tag.Output) (full : tag.attrs ≠ []) :
    (tag.name = "img".toList ∨
      ∀ front back width, pixelAttr tag.text = some (front, back, width) →
        pixelAttr (front ++ back) = none ∧ tag.text.getLast? ≠ some '/') ↔ tag.Fits := by
  have plain := quote_notMem_lateText output.tight
  have last : tag.text.getLast? ≠ some '/' ↔ tag.late = none := by
    unfold OpenTag.text
    rcases output.tight with late | late
    · obtain ⟨front, given, same⟩ :
          ∃ front given, tag.attrs = front ++ [given] :=
        ⟨_, _, (List.dropLast_append_getLast full).symm⟩
      have ends : (attrsText tag.attrs ++ lateText tag.late).getLast? = some '"' := by
        rw [late, same, attrsText_append]
        have one : attrsText [given] = needle given.1 ++ given.2 ++ ['"'] := by
          simp [attrsText, spelled]
        rw [one, lateText, List.append_nil, ← List.append_assoc, List.getLast?_concat]
      rw [ends]
      simp [late]
    · have ends : (attrsText tag.attrs ++ lateText tag.late).getLast? = some '/' := by
        rw [late]
        exact List.getLast?_concat
      rw [ends]
      simp [late]
  refine or_congr_right ?_
  have found : pixelAttr tag.text = (seenPixel tag.attrs).map fun found =>
      (attrsText found.1, attrsText found.2.1 ++ lateText tag.late, found.2.2) :=
    pixelAttr_attrsText output.clean.attrs plain
  have gone {front back : List Attribute} {width : Nat}
      (seen_ : seenPixel tag.attrs = some (front, back, width)) :
      pixelAttr (attrsText front ++ (attrsText back ++ lateText tag.late)) = none ↔
        seenPixel (front ++ back) = none := by
    obtain ⟨value, same, -⟩ := eq_of_seenPixel seen_
    have clean : CleanAttrs (front ++ back) := by
      intro given member
      refine output.clean.attrs given ?_
      rw [same]
      simp only [List.mem_append, List.mem_cons] at member ⊢
      tauto
    rw [← List.append_assoc, ← attrsText_append, pixelAttr_attrsText clean plain,
      Option.map_eq_none_iff]
  rw [found, last]
  constructor
  · intro fits front back width seen_
    have here := fits _ _ _ (by rw [seen_]; rfl)
    exact ⟨(gone seen_).mp here.1, here.2⟩
  · intro fits front back width mapped
    obtain ⟨⟨front_, back_, width_⟩, seen_, same⟩ := Option.map_eq_some_iff.mp mapped
    obtain ⟨rfl, rfl, rfl⟩ : attrsText front_ = front ∧
        attrsText back_ ++ lateText tag.late = back ∧ width_ = width := by
      simpa using same
    have here := fits _ _ _ seen_
    exact ⟨(gone seen_).mpr here.1, here.2⟩

section Parts

variable {floats : Floats} {parts : List Part}

theorem fits_parts
    (clean : ∀ part ∈ parts, part.Clean)
    (output : ∀ tag, .opening tag ∈ parts → tag.Output) :
    Fits (partsHtml parts) ↔ ∀ tag, .opening tag ∈ parts → tag.Fits := by
  unfold Fits
  rw [tags_parts clean]
  constructor
  · intro fits tag member
    by_cases empty : tag.attrs = []
    · refine .inr fun front back width found => ?_
      rw [empty] at found
      cases found
    · refine (tag.fits_iff (output tag member) empty).mp (fits (tag.name, tag.text) ?_)
      exact List.mem_flatMap.mpr ⟨_, member, Part.mem_tag.mpr ⟨tag, rfl, empty, rfl⟩⟩
  · intro fits found member
    obtain ⟨part, inside, here⟩ := List.mem_flatMap.mp member
    obtain ⟨tag, rfl, full, rfl⟩ := Part.mem_tag.mp here
    exact (tag.fits_iff (output tag inside) full).mpr (fits tag inside)

/-- A tag whose pixel width does not stand before a slash keeps its end. -/
theorem fitted_of_open {tag : OpenTag} (other : tag.name ≠ "img".toList)
    (open_ : ∀ found, seenPixel tag.attrs = some found → tag.late = none) :
    fitted floats tag =
      { tag with attrs := fittedAttrs floats (isCell tag.name) tag.attrs } := by
  unfold fitted fittedAttrs
  rw [if_neg other]
  dsimp only
  split
  · next styleless late =>
    have empty : (droppedWidth (isCell tag.name) tag.attrs).1 = [] := by
      rcases cap_cases (isCell tag.name) tag.attrs with empty | ⟨-, front, back, width, found, -⟩
      · exact empty
      · have lateless := open_ _ found
        rw [late] at lateless
        cases lateless
    unfold loosened
    rw [styleless, if_pos empty, if_pos empty]
  · rfl

theorem OpenTag.Fits.open {tag : OpenTag} (fits : tag.Fits) (other : tag.name ≠ "img".toList) :
    ∀ found, seenPixel tag.attrs = some found → tag.late = none :=
  fun found seen_ => (fits.resolve_left other found.1 found.2.1 found.2.2 seen_).2

theorem once_of_fits {tag : OpenTag} (fits : tag.Fits) (other : tag.name ≠ "img".toList) :
    seenPixel (droppedWidth (isCell tag.name) tag.attrs).2 = none := by
  have seen_ := fits.resolve_left other
  unfold droppedWidth
  cases found : seenPixel tag.attrs with
  | none => exact found
  | some triple =>
      obtain ⟨front, back, width⟩ := triple
      exact (seen_ front back width found).1

/-- What of `Output` survives the fitted layout. -/
theorem output_fitted {tag : OpenTag} (output : tag.Output)
    (open_ : tag.name ≠ "img".toList →
      ∀ found, seenPixel tag.attrs = some found → tag.late = none) :
    (fitted floats tag).Tight ∧
      ((fitted floats tag).name ≠ "img".toList → Settled (fitted floats tag).attrs) := by
  by_cases image : tag.name = "img".toList
  · have same : fitted floats tag = tag := if_pos image
    rw [same]
    exact ⟨output.tight, output.settled⟩
  · rw [fitted_of_open image (open_ image)]
    exact ⟨output.tight, fun _ => settled_fittedAttrs (output.settled image)⟩

theorem fitWidths_parts
    (clean : ∀ part ∈ parts, part.Clean)
    (output : ∀ tag, .opening tag ∈ parts → tag.Output) :
    fitWidths floats (partsHtml parts) =
      partsHtml (parts.map (Part.map (fitted floats))) :=
  mapTags_parts clean fun tag member =>
    maps_fitted (output tag member).clean (output tag member).tight
      (output tag member).settled

/-! ## What fitting shows of a tag -/

/-- The opening tags of some parts. -/
def openTags (parts : List Part) : List OpenTag :=
  parts.flatMap fun part =>
    match part with
    | .opening tag => [tag]
    | _ => []

theorem mem_openTags {tag : OpenTag} : tag ∈ openTags parts ↔ .opening tag ∈ parts := by
  unfold openTags
  rw [List.mem_flatMap]
  constructor
  · rintro ⟨part, member, inside⟩
    cases part with
    | text chars => cases inside
    | closing name => cases inside
    | opening other => rwa [List.mem_singleton.mp inside]
  · exact fun member => ⟨_, member, List.mem_singleton_self tag⟩

theorem openTags_map (g : OpenTag → OpenTag) (parts : List Part) :
    openTags (parts.map (Part.map g)) = (openTags parts).map g := by
  unfold openTags
  rw [List.flatMap_map, List.map_flatMap]
  refine List.flatMap_congr fun part _ => ?_
  cases part <;> rfl

/-- Every opening tag of mapped parts was made of one. -/
theorem opening_of_map {g : OpenTag → OpenTag} {after : OpenTag}
    (inside : .opening after ∈ parts.map (Part.map g)) :
    ∃ before, .opening before ∈ parts ∧ g before = after := by
  have member := mem_openTags.mpr inside
  rw [openTags_map] at member
  obtain ⟨before, here, same⟩ := List.mem_map.mp member
  exact ⟨before, mem_openTags.mp here, same⟩

theorem startTags_openTags (clean : ∀ part ∈ parts, part.Clean) :
    startTags (partsHtml parts) = (openTags parts).map OpenTag.startTag := by
  rw [startTags_parts clean, openTags, List.map_flatMap]
  refine List.flatMap_congr fun part _ => ?_
  cases part <;> rfl

/-- The start tags among some tokens, with their slashes. -/
def slashes (tokens : List Token) : List (List Char × Bool) :=
  tokens.flatMap fun token =>
    match token with
    | .start name selfClosing => [(name, selfClosing)]
    | _ => []

theorem slashes_textTokens (run : List Char) : slashes (textTokens run) = [] := by
  cases run <;> rfl

theorem slashes_append (first second : List Token) :
    slashes (first ++ second) = slashes first ++ slashes second :=
  List.flatMap_append

theorem slashes_mergeTexts (run : List Char) (found : List Token) :
    slashes (mergeTexts run found) = slashes found := by
  induction found generalizing run with
  | nil => exact slashes_textTokens run
  | cons token found inductionHypothesis =>
      cases token with
      | text chars => exact inductionHypothesis (run ++ chars)
      | _ =>
          rw [mergeTexts, slashes_append, slashes_textTokens, List.nil_append]
          · exact congrArg (_ ++ ·) (inductionHypothesis [])
          · simp

theorem slashes_openTags (clean : ∀ part ∈ parts, part.Clean) :
    slashes (tokens (partsHtml parts)) =
      (openTags parts).map fun tag => (tag.name, tag.selfClosing) := by
  have read := @tokens_parts parts clean [] (by simp)
  rw [List.nil_append] at read
  rw [read, slashes_mergeTexts, slashes, openTags, List.flatMap_map, List.map_flatMap]
  refine List.flatMap_congr fun part _ => ?_
  cases part <;> rfl

/-- Where fitting keeps the tokens no pixel width stands before a slash. -/
theorem open_of_tokens
    (clean : ∀ part ∈ parts, part.Clean)
    (output : ∀ tag, .opening tag ∈ parts → tag.Output)
    (same : tokens (partsHtml parts) = tokens (fitWidths floats (partsHtml parts)))
    {tag : OpenTag} (member : .opening tag ∈ parts) (other : tag.name ≠ "img".toList) :
    ∀ found, seenPixel tag.attrs = some found → tag.late = none := by
  rintro ⟨front, back, width⟩ found
  have cleanAfter := clean_map clean fun tag member =>
    @clean_fitted floats tag (clean (.opening tag) member)
  have slashed := congrArg slashes same
  rw [fitWidths_parts clean output, slashes_openTags clean, slashes_openTags cleanAfter,
    openTags_map, List.map_map] at slashed
  have closes : tag.selfClosing = (fitted floats tag).selfClosing :=
    (Prod.mk.inj (List.map_inj_left.mp slashed tag (mem_openTags.mpr member))).2
  by_contra slash
  obtain ⟨cell, styleless⟩ := (output tag member).badge slash
  have late := (output tag member).tight.resolve_left slash
  have dropped : droppedWidth (isCell tag.name) tag.attrs =
      (capOf width.repr.toList ++ [';'], front ++ back) := by
    rw [droppedWidth, found, cell]
    rfl
  have missing : seen "style".toList (front ++ back) = none := by
    refine seen_of_missing fun given inside => styleless given ?_
    refine @mem_droppedWidth (isCell tag.name) _ _ ?_
    rwa [dropped]
  have moved : (fitted floats tag).late =
      some ([] ++ [("style".toList, capOf width.repr.toList ++ [';'])]) := by
    unfold fitted
    rw [if_neg other]
    dsimp only
    rw [dropped]
    dsimp only
    rw [missing, late]
    dsimp only
    rw [if_neg (by simp)]
  unfold OpenTag.selfClosing at closes
  rw [late, moved] at closes
  simp at closes

/-- Fitting takes an attribute where there is a pixel width. -/
theorem fewer_fittedAttrs (cell : Bool) {attrs front back : List Attribute} {width : Nat}
    (found : seenPixel attrs = some (front, back, width)) :
    (others ["style".toList] (fittedAttrs floats cell attrs)).length <
      (others ["style".toList] attrs).length := by
  obtain ⟨value, same, -⟩ := eq_of_seenPixel found
  have dropped : (droppedWidth cell attrs).2 = front ++ back := by
    rw [droppedWidth, found]
  have counts : asciiLower "width".toList ∉ ["style".toList] := by decide
  rw [fittedAttrs, others_loosened (by decide), dropped, same]
  simp only [others, List.map_append, List.map_cons, List.filter_append, List.filter_cons,
    List.length_append]
  rw [if_pos (by simpa using counts)]
  simp

/-- Where fitting twice is fitting once no second pixel width is left. -/
theorem once_of_again
    (clean : ∀ part ∈ parts, part.Clean)
    (output : ∀ tag, .opening tag ∈ parts → tag.Output)
    (open_ : ∀ tag, .opening tag ∈ parts → tag.name ≠ "img".toList →
      ∀ found, seenPixel tag.attrs = some found → tag.late = none)
    (again : fitWidths floats (fitWidths floats (partsHtml parts)) =
      fitWidths floats (partsHtml parts))
    {tag : OpenTag} (member : .opening tag ∈ parts) (other : tag.name ≠ "img".toList) :
    seenPixel (droppedWidth (isCell tag.name) tag.attrs).2 = none := by
  have cleanAfter := clean_map clean fun tag member =>
    @clean_fitted floats tag (clean (.opening tag) member)
  have cleanTwice := clean_map cleanAfter fun tag member =>
    @clean_fitted floats tag (cleanAfter (.opening tag) member)
  have second : fitWidths floats (partsHtml (parts.map (Part.map (fitted floats)))) =
      partsHtml ((parts.map (Part.map (fitted floats))).map (Part.map (fitted floats))) := by
    refine mapTags_parts cleanAfter fun after inside => ?_
    obtain ⟨before, here, rfl⟩ := opening_of_map inside
    have shape := @output_fitted floats _ (output before here) (open_ before here)
    exact maps_fitted (cleanAfter _ inside) shape.1 shape.2
  rw [fitWidths_parts clean output, second] at again
  have read := congrArg startTags again
  rw [startTags_openTags cleanTwice, startTags_openTags cleanAfter, openTags_map,
    openTags_map, List.map_map, List.map_map, List.map_map] at read
  have twice : (fitted floats (fitted floats tag)).startTag = (fitted floats tag).startTag :=
    List.map_inj_left.mp read tag (mem_openTags.mpr member)
  by_contra more
  obtain ⟨found, first⟩ : ∃ found, seenPixel tag.attrs = some found := by
    refine Option.ne_none_iff_exists'.mp fun none_ => more ?_
    rw [droppedWidth, none_]
    exact none_
  have late := open_ tag member other found first
  have settled := (output tag member).settled other
  have once : fitted floats tag =
      { tag with attrs := fittedAttrs floats (isCell tag.name) tag.attrs } :=
    fitted_of_open other (open_ tag member other)
  have afterwards := seenPixel_value (@settled_fittedAttrs floats (isCell tag.name) _ settled)
  rw [fittedAttrs, firstValue_loosened,
    ← seenPixel_value (settled_droppedWidth settled (isCell tag.name)), ← fittedAttrs]
    at afterwards
  rw [once] at twice
  generalize fittedAttrs floats (isCell tag.name) tag.attrs = attrs at twice afterwards
  obtain ⟨⟨front, back, width⟩, left⟩ : ∃ found, seenPixel attrs = some found := by
    refine Option.ne_none_iff_exists'.mp fun none_ => more ?_
    rw [none_] at afterwards
    exact Option.map_eq_none_iff.mp afterwards.symm
  have shrinks := @fewer_fittedAttrs floats (isCell tag.name) _ _ _ _ left
  have again : fitted floats { tag with attrs } =
      { tag with attrs := fittedAttrs floats (isCell tag.name) attrs } :=
    fitted_of_open other fun _ _ => late
  rw [again] at twice
  have kept := congrArg (fun start => (start.2.filter
    fun given => !(["style".toList].contains given.1)).length) twice
  have whole {attrs : List Attribute} : ({ tag with attrs } : OpenTag).attributes = attrs := by
    change attrs ++ tag.late.getD [] = attrs
    rw [late]
    exact List.append_nil attrs
  change (others ["style".toList] ({ tag with attrs := _ } : OpenTag).attributes).length =
    (others ["style".toList] ({ tag with attrs } : OpenTag).attributes).length at kept
  rw [whole, whole] at kept
  omega

/-! ## Fitting documents -/

/-- A tag that fits asks for no width once it is fitted, unless it is an image. -/
theorem narrow_fitted {tag : OpenTag} (output : tag.Output) (fits : tag.Fits)
    (other : tag.name ≠ "img".toList) : Narrow floats (fitted floats tag).text := by
  rw [fitted_of_open other (fits.open other)]
  exact narrow_fittedAttrs output.clean.attrs (output.settled other)
    (once_of_fits fits other) (quote_notMem_lateText output.tight)

theorem keepsOthers_fitted {tag : OpenTag} (output : tag.Output) (fits : tag.Fits) :
    KeepsOthers widthKeys (fitted floats) tag := by
  by_cases image : tag.name = "img".toList
  · have same : fitted floats tag = tag := if_pos image
    refine ⟨clean_fitted output.clean, ?_, ?_, ?_⟩ <;> rw [same]
  · have same := @fitted_of_open floats tag image (fits.open image)
    refine ⟨clean_fitted output.clean, ?_, ?_, ?_⟩
    all_goals rw [same]
    · rfl
    · change others widthKeys (fittedAttrs _ _ _ ++ tag.late.getD []) = _
      rw [others_append, others_fittedAttrs, ← others_append]
      rfl

/-- Over parts as the sanitizer writes them. -/
theorem rewritesOnly_parts
    (clean : ∀ part ∈ parts, part.Clean)
    (output : ∀ tag, .opening tag ∈ parts → tag.Output) :
    RewritesOnly floats (partsHtml parts) ↔ Fits (partsHtml parts) := by
  rw [fits_parts clean output]
  constructor
  · intro touches tag member
    by_cases image : tag.name = "img".toList
    · exact .inl image
    have open_ {tag : OpenTag} (member : .opening tag ∈ parts) :=
      @open_of_tokens floats _ clean output touches.fit.tokens tag member
    have once := once_of_again clean output (fun _ => open_) touches.once member image
    refine .inr fun front back width found => ⟨?_, open_ member image _ found⟩
    rwa [droppedWidth, found] at once
  · intro fits
    have mapped : fitWidths floats (partsHtml parts) = _ := fitWidths_parts clean output
    have cleanAfter := clean_map clean fun tag member =>
      @clean_fitted floats tag (clean (.opening tag) member)
    refine ⟨?_, ?_, ?_, ?_⟩
    · rw [mapped]
      exact sameBut_parts clean fun tag member =>
        keepsOthers_fitted (output tag member) (fits tag member)
    · exact sameBut_darkenColors clean fun tag member => (output tag member).tight
    · rw [mapped, layoutWidth, List.foldl_map, tags_parts cleanAfter]
      refine List.foldlRecOn (motive := fun width => width = 0) _ _ rfl fun width zero found inside => ?_
      obtain ⟨part, member, here⟩ := List.mem_flatMap.mp inside
      obtain ⟨after, rfl, -, rfl⟩ := Part.mem_tag.mp here
      obtain ⟨before, there, rfl⟩ := opening_of_map member
      have asks : tagWidth floats (fitted floats before).name (fitted floats before).text = 0 := by
        by_cases image : before.name = "img".toList
        · have same : fitted floats before = before := if_pos image
          rw [same]
          exact if_pos image
        · exact tagWidth_of_narrow
            (narrow_fitted (output before there) (fits before there) image) _
      rw [zero, asks]
      rfl
    · have stays : fitWidths floats (partsHtml (parts.map (Part.map (fitted floats)))) =
          partsHtml ((parts.map (Part.map (fitted floats))).map (Part.map id)) := by
        refine mapTags_parts cleanAfter fun after member => ⟨rfl, ?_, fun _ => rfl⟩
        obtain ⟨before, there, rfl⟩ := opening_of_map member
        by_cases image : before.name = "img".toList
        · have same : fitted floats before = before := if_pos image
          rw [same, fitTag, if_pos image]
          rfl
        · exact fitTag_of_narrow
            (narrow_fitted (output before there) (fits before there) image) _
      have unchanged : Part.map id = id := by
        funext part
        cases part <;> rfl
      rw [mapped, stays, unchanged, List.map_id]

end Parts

end Html
end Mailcore
