import ComponentSheet.Macro.Dialect
import ComponentSheet.Proofs.Macro.Called
import ComponentSheet.Proofs.Selector.Cut
import ComponentSheet.Proofs.Selector.Ending

/-! What a replacement shows of the parameters of its call. -/
namespace ComponentSheet.Macro

open Selector Reading

variable {d : Dialect} {ctx : Context} {kinds : List Kind} {j : Kind} {p r s u v w x y : Text}
  {c : Kind × Option Text}

/-- The text behind the name that a text starts with. -/
def behindName (s : Text) : Text :=
  (name s).2

/-- The text that shows the calls which a replacement keeps of the parameters. A name at their front
becomes a part of the name that is written in front of it, a second parameter may have no use, and
there are no calls in square brackets. -/
def Dialect.kept? (d : Dialect) (ctx : Context) (kind : Kind) (params : Text) : Option Text :=
  let params := params.trim
  match d, kind with
  | .flat, .content => some (behindName (slotAndContent params).1)
  | .webComponent, .content => (slotAndContent params).2
  | .flat, .component | _, .attr | .flat, .variant => some (behindName params)
  | .webComponent, .component => some (blockName params.dashed)
  | .webComponent, .variant => none
  | .flat, .state => some (if [':'].isPrefixOf params then params else behindName params)
  | .webComponent, .state =>
    if [':'].isPrefixOf params then some (if ctx.underHost then params ++ [')'] else params)
    else none

/-- The selector of a slot as it is written. -/
def slotSegments (slot : Text) (content : Option Text) : List Segment :=
  [.token (.typeName "slot".toList), .token (.attr ("name=\"".toList ++ slot ++ ['"'])),
    .token (.pseudoElement "slotted".toList (some (content.getD ['*'])))]

/-- The selector that takes the place of a content call is read as it is written. -/
def ReadsAsSlot (params replacement : Text) : Prop :=
  segments replacement =
    slotSegments (slotAndContent params.trim).1 (slotAndContent params.trim).2

instance (params replacement : Text) : Decidable (ReadsAsSlot params replacement) :=
  inferInstanceAs (Decidable (_ = _))

theorem group_quoted {a b : Char} {n : Nat} (hq : '"' ∉ s) (hb : '\\' ∉ s)
    (h : group a b n none u = some (v, w)) :
    group a b n (some '"') (s ++ '"' :: u) = some (s ++ '"' :: v, w) := by
  induction s with
  | nil =>
    rw [List.nil_append, group_string (by decide), if_pos rfl, h]
    rfl
  | cons c s ih =>
    rw [List.mem_cons, not_or] at hq hb
    rw [List.cons_append, group_string fun hc => hb.1 hc.symm, if_neg fun hc => hq.1 hc.symm,
      ih hq.2 hb.2]
    rfl

/-- A slot with neither quotes nor backslashes in its name is read as it is written. -/
theorem segments_slot {slot : Text} {content : Option Text} (hq : '"' ∉ slot) (hb : '\\' ∉ slot)
    (hc : Closed (content.getD ['*'])) :
    segments (Dialect.webComponent.content ctx slot content) = slotSegments slot content := by
  have hname (body v : Text) : (Segment.token (.typeName "slot".toList)).Reads false
      ((Segment.token (.attr body)).text ++ v) := by
    refine reads_token (by decide : startsName "slot".toList) ⟨?_, by simp [Segment.text]⟩ (by simp)
    refine endsName_swap (v := ['[']) (by decide) (by simp) ?_
    simp [Segment.text, isNameChar]
  have hattr (v : Text) :
      (Segment.token (.attr ("name=\"".toList ++ slot ++ ['"']))).Reads true v := by
    refine reads_token (?_ : bracketed _ = _) trivial (by simp)
    have hgroup := group_quoted (a := '[') (b := ']') (n := 0) (u := [']']) hq hb rfl
    have htext : "name=\"".toList ++ slot ++ ['"'] ++ [']'] =
        'n' :: 'a' :: 'm' :: 'e' :: '=' :: '"' :: (slot ++ '"' :: [']']) := by simp
    rw [bracketed, htext]
    simp [group_plain, hgroup]
  have hslotted : (Segment.token (.pseudoElement "slotted".toList
      (some (content.getD ['*'])))).Reads true [] :=
    reads_token ⟨by decide, hc⟩ trivial (by simp)
  have htext : Dialect.webComponent.content ctx slot content =
      (Segment.token (.typeName "slot".toList)).text ++
        ((Segment.token (.attr ("name=\"".toList ++ slot ++ ['"']))).text ++
          ((Segment.token (.pseudoElement "slotted".toList (some (content.getD ['*'])))).text ++
            [])) := by
    simp [Dialect.content_webComponent, Segment.text, Token.applied]
  rw [htext, segments, segmentsFrom_of_reads (hname _ _)]
  change _ :: segmentsFrom true _ = _
  rw [segmentsFrom_of_reads (hattr _)]
  change _ :: _ :: segmentsFrom true _ = _
  rw [segmentsFrom_of_reads hslotted, segmentsFrom]
  rfl

theorem calls_plain {g : Segment} (hf : g.Formed) (hv : g.Stops v) (ha : arguments? g = none)
    (ho : openName? g = none) : calls kinds (g.text ++ v) = calls kinds v := by
  rw [calls_segment hf hv, callsIn_of_arguments?_eq_none ha, ho]
  rfl

theorem calls_nesting (kinds : List Kind) (s : Text) : calls kinds ('&' :: s) = calls kinds s :=
  calls_plain (g := .token .nesting) trivial trivial rfl rfl

theorem calls_paren (kinds : List Kind) (s : Text) : calls kinds ('(' :: s) = calls kinds s := by
  refine calls_plain (g := .token (.raw ['('])) ?_ ⟨by simp, by simp⟩ rfl rfl
  exact .inr (.inr (.inr ⟨'(', rfl, by decide, by decide, by decide⟩))

/-- In a class the name at the front of a text is joined to what is in front of it. -/
theorem calls_class (hu : ∀ c ∈ u, isNameChar c) (s : Text) :
    calls kinds ('.' :: (u ++ '-' :: s)) = calls kinds (behindName s) := by
  have hname : ∀ c ∈ u ++ ['-'], isNameChar c := by
    intro c hc
    rcases List.mem_append.1 hc with hc | hc
    · exact hu c hc
    · rw [List.mem_singleton.1 hc]
      decide
  have hends : EndsName (u ++ ['-'] ++ (name s).1) (name s).2 :=
    endsName_prepend hname (opensEscape_concat (by decide) u) (endsName_name s)
  have htext : '.' :: (u ++ '-' :: s) =
      (Segment.token (.className (u ++ ['-'] ++ (name s).1))).text ++ (name s).2 := by
    simp [Segment.text, name_append]
  rw [htext]
  refine calls_plain ?_ hends rfl rfl
  cases u with
  | nil => rfl
  | cons c u => simpa [Segment.Formed, Token.Formed] using hu c List.mem_cons_self

theorem isNameChar_brand : ∀ c ∈ brand, isNameChar c :=
  List.all_eq_true.1 (by decide)

theorem isNameChar_blockName (hn : ∀ c ∈ ctx.component, isNameChar c) :
    ∀ c ∈ blockName ctx.component, isNameChar c := by
  intro c hc
  simp only [blockName, List.mem_append, List.mem_cons] at hc
  rcases hc with hc | rfl | hc
  · exact isNameChar_brand c hc
  · decide
  · exact hn c hc

theorem calls_element (hn : ∀ c ∈ ctx.component, isNameChar c) (s : Text) :
    calls kinds ('.' :: elementName ctx.component s) = calls kinds (behindName s) :=
  calls_class (isNameChar_blockName hn) s

theorem behindName_dash (s : Text) : behindName ('-' :: s) = behindName s := by
  rw [behindName, name_cons (by decide) (by decide), behindName]

theorem calls_state (hw : d.kept? ctx .state p = some w) :
    calls kinds (d.state ctx p.trim) = calls kinds w := by
  have his : ∀ c ∈ ['i', 's'], isNameChar c := List.all_eq_true.1 (by decide)
  unfold Dialect.kept? at hw
  unfold Dialect.state
  cases d with
  | flat =>
    cases hw
    dsimp only
    split
    · exact calls_nesting kinds _
    · exact (calls_nesting kinds _).trans (calls_class his _)
  | webComponent =>
    dsimp only at hw ⊢
    split at hw
    · rename_i hcolon
      cases hw
      rw [if_pos hcolon]
      split
      · exact (calls_nesting kinds _).trans (calls_paren kinds _)
      · exact calls_nesting kinds _
    · cases hw

theorem calls_slot (h : ReadsAsSlot p r) (hw : (slotAndContent p.trim).2 = some w) :
    calls kinds r = calls kinds w := by
  rw [calls_eq_flatMap kinds false, ← segments, h, slotSegments, hw]
  have hslot : callsIn kinds (.token (.typeName "slot".toList)) = [] :=
    callsIn_of_arguments?_eq_none rfl
  have hattr (body : Text) : callsIn kinds (.token (.attr body)) = [] :=
    callsIn_of_arguments?_eq_none rfl
  have hinside : callsIn kinds (.token (.pseudoElement "slotted".toList (some w))) =
      calls kinds w := callsIn_arguments rfl rfl
  rw [List.flatMap_cons, List.flatMap_cons, List.flatMap_singleton, hslot, hattr,
    Option.getD_some, hinside]
  rfl

/-- The calls that a replacement shows are those in what it keeps of the parameters. -/
theorem calls_of_resolve (hn : ∀ c ∈ ctx.component, isNameChar c)
    (hr : d.resolve ctx j p = .ok r) (hw : d.kept? ctx j p = some w)
    (hslot : d = .webComponent → j = .content → ReadsAsSlot p r) :
    calls kinds r = calls kinds w := by
  obtain ⟨-, ⟨rfl, -, rfl⟩ | ⟨rfl, rfl⟩ | ⟨rfl, rfl⟩ | ⟨rfl, rfl⟩ | ⟨rfl, rfl⟩⟩ :=
    Dialect.resolve_cases hr
  · cases d with
    | flat =>
      cases hw
      rw [Dialect.content_flat]
      exact calls_element hn _
    | webComponent => exact calls_slot (hslot rfl rfl) hw
  · cases d with
    | flat =>
      cases hw
      exact calls_class isNameChar_brand _
    | webComponent =>
      cases hw
      rfl
  · cases d <;> cases hw <;> exact calls_element hn _
  · cases d with
    | flat =>
      cases hw
      rw [Dialect.variant_flat, calls_element hn, behindName_dash]
    | webComponent => cases hw
  · exact calls_state hw

/-- What is put into a slot is the text behind the first comma of the parameters. -/
theorem mem_calls_content_iff : (∃ w, (slotAndContent p.trim).2 = some w ∧ c ∈ calls kinds w) ↔
    ∃ x y, cut? p = some (x, y) ∧ c ∈ calls kinds y := by
  have hcontent (x y : Text) (h : cut? p.trim = some (x, y)) :
      (∃ w, (slotAndContent p.trim).2 = some w ∧ c ∈ calls kinds w) ↔ c ∈ calls kinds y := by
    rw [slotAndContent, ← cut?, h]
    dsimp only
    split
    · rename_i hy
      rw [← calls_trim kinds y, hy, calls_nil]
      simp
    · simp [calls_trim]
  obtain ⟨u, v, hp, hu, hv⟩ := p.exists_eq_trim
  have hcut := cut?_surrounded hu hv p.trim
  rw [← List.append_assoc, ← hp] at hcut
  rw [hcut]
  cases hx : cut? p.trim with
  | none =>
    rw [slotAndContent, ← cut?, hx]
    simp
  | some q =>
    obtain ⟨x, y⟩ := q
    rw [hcontent x y hx, ← calls_append_blanks y hv]
    constructor
    · exact fun h => ⟨u ++ x, y ++ v, rfl, h⟩
    · rintro ⟨_, _, ⟨⟩, h⟩
      exact h

end ComponentSheet.Macro
