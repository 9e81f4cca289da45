import ComponentSheet.Proofs.Selector.Rereading
import ComponentSheet.Selector.Branded
import ComponentSheet.Selector.Placed

/-! A selector in the scheme of a component is read as its tokens with other names. -/
namespace ComponentSheet.Selector

open Reading

variable {b : Bool} {component a n s v w : Text} {t t' : Token} {g : Segment} {l m : List Segment}

/-- All characters belong to names, and none of them escapes the next one. -/
def Unescaped (n : Text) : Prop :=
  ∀ c ∈ n, isNameChar c ∧ c ≠ '\\'

instance (n : Text) : Decidable (Unescaped n) :=
  List.decidableBAll _ n

/-- The token in the scheme of a component; a host with an argument stays as it is. -/
def Token.renamed (component : Text) (opensCompound : Bool) : Token → Token
  | className n =>
    if opensCompound && !isBranded component n then className (elementName component n)
    else className n
  | idName n => className (elementName component n)
  | pseudoClass n none =>
    if n = "host".toList then className (blockName component) else pseudoClass n none
  | t => t

def Segment.renamed (component : Text) (inCompound : Bool) : Segment → Segment
  | blanks w => blanks w
  | token t => token (t.renamed component (!inCompound))

/-- The argument of a host, trimmed. -/
def hostArgument? : Segment → Option Text
  | .token (.pseudoClass n (some a)) => if n = "host".toList then some a.trim else none
  | _ => none

/-- The arguments of the hosts among the segments, each with the text behind the host. -/
def hosts : List Segment → List (Text × Text)
  | [] => []
  | g :: l =>
    match hostArgument? g with
    | some a => (a, textOf l) :: hosts l
    | none => hosts l

/-- The segments that a segment becomes. The argument of a host is cut anew, behind the class of the
component. -/
def replaced (component : Text) (inCompound : Bool) (g : Segment) : List Segment :=
  match hostArgument? g with
  | some a => .token (.className (blockName component)) :: segmentsFrom true a
  | none => [g.renamed component inCompound]

def replacedAll (component : Text) (inCompound : Bool) : List Segment → List Segment
  | [] => []
  | g :: l => replaced component inCompound g ++ replacedAll component (g.continues inCompound) l

/-- The argument of a host can stand behind a class and in front of `v`: it does not go on with the
name of the class, and its last token is a simple selector that ends where `v` starts. -/
structure Joins (a v : Text) : Prop where
  head : (a ++ v).head?.any isNameChar = false
  closes : ∀ g ∈ (segmentsFrom true a).getLast?, g.Closes v

instance (a v : Text) : Decidable (Joins a v) :=
  decidable_of_iff ((a ++ v).head?.any isNameChar = false ∧
    ∀ g ∈ (segmentsFrom true a).getLast?, g.Closes v) ⟨fun h => ⟨h.1, h.2⟩, fun h => ⟨h.1, h.2⟩⟩

theorem hostArgument?_eq_some : hostArgument? g = some a ↔
    ∃ args, g = .token (.pseudoClass "host".toList (some args)) ∧ a = args.trim := by
  constructor
  · intro h
    unfold hostArgument? at h
    split at h
    · rename_i n args
      obtain ⟨rfl, h⟩ := Option.ite_none_right_eq_some.1 h
      cases h
      exact ⟨args, rfl, rfl⟩
    · cases h
  · rintro ⟨args, rfl, rfl⟩
    rfl

theorem forall_hosts_cons {P : Text × Text → Prop} : (∀ p ∈ hosts (g :: l), P p) ↔
    (∀ a ∈ hostArgument? g, P (a, textOf l)) ∧ ∀ p ∈ hosts l, P p := by
  rw [hosts]
  cases hostArgument? g with
  | none => simp
  | some a => simp

/-- How a token may be renamed. -/
inductive Token.Renaming (component : Text) (opensCompound : Bool) : Token → Token → Prop
  | kept (t : Token) (h : brandedToken component opensCompound t = t.lexeme) :
      Renaming component opensCompound t t
  | className (n : Text)
      (h : brandedToken component opensCompound (className n) = '.' :: elementName component n) :
      Renaming component opensCompound (className n) (className (elementName component n))
  | idName (n : Text) :
      Renaming component opensCompound (idName n) (className (elementName component n))
  | host : Renaming component opensCompound (pseudoClass "host".toList none)
      (className (blockName component))

theorem Token.renaming (component : Text) (b : Bool) (h : hostArgument? (.token t) = none) :
    t.Renaming component b (t.renamed component b) := by
  cases t with
  | className n =>
    rw [renamed]
    split
    · rename_i hn
      exact .className n (if_pos hn)
    · rename_i hn
      exact .kept _ (if_neg hn)
  | idName n => exact .idName n
  | pseudoClass n args =>
    cases args with
    | none =>
      rw [renamed]
      split
      · rename_i hn
        exact hn ▸ .host
      · rename_i hn
        exact .kept _ (if_neg hn)
    | some a =>
      have hn : n ≠ "host".toList := by
        rintro rfl
        cases h
      exact .kept _ (if_neg hn)
  | _ => exact .kept _ rfl

namespace Token.Renaming

theorem lexeme_eq (h : t.Renaming component b t') : t'.lexeme = brandedToken component b t := by
  cases h with
  | kept _ h => exact h.symm
  | className _ h => exact h.symm
  | idName => rfl
  | host => exact (List.append_nil _).symm

theorem isSimple_eq (h : t.Renaming component b t') : t'.isSimple = t.isSimple := by
  cases h with
  | kept | className | idName | host => rfl

theorem startsAlike (h : t.Renaming component b t') (ht : t.lexeme ≠ []) (v w : Text) :
    StartsAlike (t.lexeme ++ v) (t'.lexeme ++ w) := by
  cases h with
  | kept => exact startsAlike_append ht v w
  | className => exact Or.inl rfl
  | idName => exact Or.inr ⟨Or.inl rfl, rfl⟩
  | host => exact Or.inr ⟨Or.inr rfl, rfl⟩

end Token.Renaming

theorem continues_renamed (component : Text) (b : Bool) (h : hostArgument? g = none) :
    (g.renamed component b).continues b = g.continues b := by
  cases g with
  | blanks => rfl
  | token t => exact (t.renaming component (!b) h).isSimple_eq

theorem textOf_replaced (component : Text) (b : Bool) (g : Segment) :
    textOf (replaced component b g) = brandedSegments component b [g] := by
  rw [replaced]
  split
  · rename_i a ha
    obtain ⟨args, rfl, rfl⟩ := hostArgument?_eq_some.1 ha
    rw [textOf_cons, textOf_segmentsFrom]
    exact (List.append_nil _).symm
  · rename_i ha
    rw [textOf, List.flatMap_singleton]
    cases g with
    | blanks w => exact (List.append_nil w).symm
    | token t =>
      exact (t.renaming component (!b) ha).lexeme_eq.trans (List.append_nil _).symm

theorem brandedSegments_eq (component : Text) (b : Bool) (l : List Segment) :
    brandedSegments component b l = textOf (replacedAll component b l) := by
  induction l generalizing b with
  | nil => rfl
  | cons g l ih =>
    rw [replacedAll, textOf_append, textOf_replaced, ← ih]
    cases g <;> simp [brandedSegments, Segment.continues]

theorem startsAlike_replaced (component : Text) (b : Bool) (hg : g.text ≠ []) (v w : Text) :
    StartsAlike (g.text ++ v) (textOf (replaced component b g) ++ w) := by
  rw [replaced]
  split
  · rename_i a ha
    obtain ⟨args, rfl, rfl⟩ := hostArgument?_eq_some.1 ha
    exact Or.inr ⟨Or.inr rfl, rfl⟩
  · rename_i ha
    rw [textOf, List.flatMap_singleton]
    cases g with
    | blanks => exact startsAlike_append hg v w
    | token t => exact (t.renaming component (!b) ha).startsAlike hg v w

theorem startsAlike_replacedAll (component : Text) (b : Bool) (s : Text) :
    StartsAlike s (textOf (replacedAll component b (segmentsFrom b s))) := by
  cases s with
  | nil => exact Or.inl (by rw [segmentsFrom, replacedAll]; rfl)
  | cons c s =>
    have hs := segment_append b c s
    have ha := startsAlike_replaced component b (segment_ne_nil b c s) (segment b c s).2
      (textOf (replacedAll component ((segment b c s).1.continues b)
        (segmentsFrom ((segment b c s).1.continues b) (segment b c s).2)))
    rwa [hs, ← textOf_append, ← replacedAll, ← segmentsFrom] at ha

theorem endsName_append (hn : Unescaped n) (h : EndsName w v) :
    EndsName (n ++ w) v := by
  induction n with
  | nil => exact h
  | cons c n ih =>
    rw [Unescaped, List.forall_mem_cons] at hn
    have hi : name (n ++ w ++ v) = (n ++ w, v) := ih hn.2
    rw [EndsName, List.cons_append, List.cons_append, name_cons hn.1.1 hn.1.2, hi]

section

variable (hn : Unescaped component)
include hn

theorem unescaped_blockName : Unescaped (blockName component) := by
  have hb : Unescaped (brand ++ ['-']) := by decide
  rw [blockName, List.append_cons]
  exact List.forall_mem_append.2 ⟨hb, hn⟩

theorem endsName_blockName (hv : v.head?.any isNameChar = false) :
    EndsName (blockName component) v := by
  have h := endsName_append (unescaped_blockName hn) (name_of_head hv : EndsName [] v)
  rwa [List.append_nil] at h

theorem endsName_elementName (h : EndsName n v) : EndsName (elementName component n) v := by
  have hd : EndsName ('-' :: n) v := endsName_append (n := ['-']) (by decide) h
  exact endsName_append (unescaped_blockName hn) hd

/-- A token ends where it did if it has another name. -/
theorem Token.Renaming.reads (h : t.Renaming component (!b) t')
    (hr : (Segment.token t).Reads b v) (hw : StartsAlike v w) : (Segment.token t').Reads b w := by
  have hs : t.Stops v := hr.formed.2
  cases h with
  | kept _ _ => exact hr.of_alike hw
  | className n => exact reads_className rfl (endsName_elementName hn (hs.of_alike hw)) b
  | idName n => exact reads_className rfl (endsName_elementName hn (hs.of_alike hw)) b
  | host =>
    have hv : v.head?.any isNameChar = false := endsName_head hs.1
    exact reads_className rfl (endsName_blockName hn (hw.head_name hv)) b

theorem renamed_reads (ha : hostArgument? g = none) (hr : g.Reads b v) (hw : StartsAlike v w) :
    (g.renamed component b).Reads b w := by
  cases g with
  | blanks => exact hr.of_alike hw
  | token t => exact (t.renaming component (!b) ha).reads hn hr hw

/-- In front of a text that starts alike, what replaces a segment is cut as it was made. -/
theorem segmentsFrom_replaced (hj : ∀ a ∈ hostArgument? g, Joins a v) (hr : g.Reads b v)
    (hw : StartsAlike v w) :
    segmentsFrom b (textOf (replaced component b g) ++ w) =
      replaced component b g ++ segmentsFrom (g.continues b) w := by
  rw [replaced]
  split
  · rename_i a ha
    obtain ⟨head, closes⟩ := hj a ha
    obtain ⟨args, rfl, rfl⟩ := hostArgument?_eq_some.1 ha
    have hclass : (Segment.token (.className (blockName component))).Reads b (args.trim ++ w) :=
      reads_className rfl (endsName_blockName hn ((hw.append _).head_name head)) b
    have hcut := segmentsFrom_append true args.trim fun g hg => (closes g hg).of_alike hw
    rw [continuesAfter_of_closes closes] at hcut
    rw [textOf_cons, textOf_segmentsFrom, List.append_assoc,
      segmentsFrom_of_reads hclass]
    exact congrArg _ hcut
  · rename_i ha
    rw [textOf, List.flatMap_singleton, segmentsFrom_of_reads (renamed_reads hn ha hr hw),
      continues_renamed component b ha]
    rfl

/-- A selector in the scheme of a component is cut into what its segments become. -/
theorem segmentsFrom_replacedAll (b : Bool) (s : Text)
    (hj : ∀ p ∈ hosts (segmentsFrom b s), Joins p.1 p.2) :
    segmentsFrom b (textOf (replacedAll component b (segmentsFrom b s))) =
      replacedAll component b (segmentsFrom b s) := by
  -- What stands behind a segment is replaced, too, but it starts alike: the segment ends there.
  fun_induction segmentsFrom b s with
  | case1 b =>
    rw [replacedAll]
    exact segmentsFrom.eq_1 b
  | case2 b c s r ih =>
    have hr : r.1.Reads b r.2 := reads_segment b c s
    rw [forall_hosts_cons, textOf_segmentsFrom] at hj
    rw [replacedAll, textOf_append,
      segmentsFrom_replaced hn hj.1 hr (startsAlike_replacedAll component _ r.2), ih hj.2]

theorem segments_branded (hj : ∀ p ∈ hosts (segments s), Joins p.1 p.2) :
    segments (branded component s) = replacedAll component false (segments s) := by
  rw [branded, brandedSegments_eq]
  exact segmentsFrom_replacedAll hn false s hj

end

/-- The blanks in front of the first token, between each two tokens and behind the last one. -/
def gaps : List Segment → List Text
  | [] => [[]]
  | .token _ :: l => [] :: gaps l
  | .blanks w :: l =>
    match gaps l with
    | [] => [w]
    | v :: vs => (w ++ v) :: vs

theorem hosts_cons_eq_nil_iff : hosts (g :: l) = [] ↔ hostArgument? g = none ∧ hosts l = [] := by
  rw [hosts]
  cases hostArgument? g with
  | none => simp
  | some a => simp

theorem replacedAll_cons (h : hostArgument? g = none) :
    replacedAll component b (g :: l) =
      g.renamed component b :: replacedAll component (g.continues b) l := by
  rw [replacedAll, replaced, h]
  rfl

theorem tokens_replacedAll (h : hosts l = []) (i j : Nat) :
    (placedFrom i b (replacedAll component b l)).map Placed.token =
      (placedFrom j b l).map fun p => p.token.renamed component p.opensCompound := by
  induction l generalizing b i j with
  | nil => rfl
  | cons g l ih =>
    obtain ⟨hg, hl⟩ := hosts_cons_eq_nil_iff.1 h
    rw [replacedAll_cons hg]
    cases g with
    | blanks w => exact ih hl _ _
    | token t =>
      have hc := continues_renamed component b hg
      rw [Segment.renamed, Segment.continues] at hc
      rw [Segment.renamed, placedFrom, placedFrom, List.map_cons, List.map_cons, hc]
      exact congrArg _ (ih hl _ _)

theorem gaps_replacedAll (h : hosts l = []) : gaps (replacedAll component b l) = gaps l := by
  induction l generalizing b with
  | nil => rfl
  | cons g l ih =>
    obtain ⟨hg, hl⟩ := hosts_cons_eq_nil_iff.1 h
    rw [replacedAll_cons hg]
    cases g with
    | blanks w => rw [Segment.renamed, gaps, gaps, ih hl]
    | token t => rw [Segment.renamed, gaps, gaps, ih hl]

/-- Without hosts that have arguments, the tokens of a selector in the scheme of a component are its
tokens, renamed one by one, with the same blanks between them. -/
theorem placed_branded (hn : Unescaped component)
    (hs : hosts (segments s) = []) :
    (placed (branded component s)).map Placed.token =
        (placed s).map (fun p => p.token.renamed component p.opensCompound) ∧
      gaps (segments (branded component s)) = gaps (segments s) := by
  have hb : segments (branded component s) = replacedAll component false (segments s) :=
    segments_branded hn (by simp [hs])
  rw [placed, placed, hb]
  exact ⟨tokens_replacedAll hs 0 0, gaps_replacedAll hs⟩

theorem placed_branded_adjacent :
    let component := "Button".toList
    let s := " .a\\ .b#c:host>.spectrum-Button-d ,:.#e\u00a0[.f :host(.g".toList
    (Unescaped component ∧ hosts (segments s) = []) ∧
      (placed (branded component s)).map Placed.token =
        [.className "spectrum-Button-a\\ ".toList, .className "b".toList,
          .className "spectrum-Button-c".toList, .className "spectrum-Button".toList,
          .combinator .child [], .className "spectrum-Button-d".toList, .comma,
          .pseudoClass [] none, .raw ['.'], .className "spectrum-Button-e\u00a0".toList,
          .raw "[.f :host(.g".toList] ∧
      gaps (segments (branded component s)) =
        [" ".toList, [], [], [], [], [], " ".toList, [], [], [], [], []] := by
  intro component s
  have hn : Unescaped component := by decide
  have hs : hosts (segments s) = [] := by decide +kernel
  obtain ⟨ht, hg⟩ := placed_branded hn hs
  refine ⟨⟨hn, hs⟩, ht.trans ?_, hg.trans ?_⟩
  · decide +kernel
  · decide +kernel

theorem isBranded_blockName (component : Text) : isBranded component (blockName component) := by
  simp [isBranded]

theorem isBranded_elementName (component n : Text) :
    isBranded component (elementName component n) := by
  have h : elementName component [] <+: elementName component n := ⟨n, by simp [elementName]⟩
  rw [isBranded, List.isPrefixOf_iff_prefix.2 h, Bool.or_true]

theorem brandedToken_of_isBranded (h : isBranded component n) (b : Bool) :
    brandedToken component b (.className n) = '.' :: n := by
  rw [brandedToken, h, Bool.not_true, Bool.and_false]
  rfl

theorem Token.Renaming.brandedToken_eq (h : t.Renaming component b t') :
    brandedToken component b t' = t'.lexeme := by
  cases h with
  | kept _ h => exact h
  | className n => exact brandedToken_of_isBranded (isBranded_elementName component n) b
  | idName n => exact brandedToken_of_isBranded (isBranded_elementName component n) b
  | host => exact brandedToken_of_isBranded (isBranded_blockName component) b

theorem brandedSegments_append (component : Text) (b : Bool) (l m : List Segment) :
    brandedSegments component b (l ++ m) =
      brandedSegments component b l ++ brandedSegments component (continuesAfter b l) m := by
  induction l generalizing b with
  | nil => rfl
  | cons g l ih =>
    cases g <;> simp [brandedSegments, ih, Segment.continues]

/-- There is nothing left to rename in what a segment has become. -/
theorem brandedSegments_replaced
    (ha : ∀ a ∈ hostArgument? g, brandedSegments component true (segmentsFrom true a) = a) :
    brandedSegments component b (replaced component b g) = textOf (replaced component b g) := by
  rw [replaced]
  split
  · rename_i a hg
    have hs : (Token.className (blockName component)).isSimple = true := rfl
    rw [brandedSegments, brandedToken_of_isBranded (isBranded_blockName component), hs, ha a hg,
      textOf_cons, textOf_segmentsFrom]
    rfl
  · rename_i hg
    cases g with
    | blanks w => rfl
    | token t => exact congrArg (· ++ []) (t.renaming component (!b) hg).brandedToken_eq

theorem continuesAfter_replaced (hj : ∀ a ∈ hostArgument? g, Joins a v) :
    continuesAfter b (replaced component b g) = g.continues b := by
  rw [replaced]
  split
  · rename_i a hg
    obtain ⟨args, rfl, rfl⟩ := hostArgument?_eq_some.1 hg
    exact continuesAfter_of_closes (hj _ hg).closes
  · rename_i hg
    exact continues_renamed component b hg

theorem brandedSegments_replacedAll (hj : ∀ p ∈ hosts l, Joins p.1 p.2)
    (hr : ∀ p ∈ hosts l, brandedSegments component true (segmentsFrom true p.1) = p.1) :
    brandedSegments component b (replacedAll component b l) =
      textOf (replacedAll component b l) := by
  induction l generalizing b with
  | nil => rfl
  | cons g l ih =>
    rw [forall_hosts_cons] at hj hr
    rw [replacedAll, brandedSegments_append, brandedSegments_replaced hr.1,
      continuesAfter_replaced hj.1, ih hj.2 hr.2, textOf_append]

/-- To write a selector in the scheme of a component a second time changes nothing, if the argument
of each host can stand behind a class and holds nothing to rename there. -/
theorem branded_branded (hn : Unescaped component)
    (hj : ∀ p ∈ hosts (segments s), Joins p.1 p.2)
    (hr : ∀ p ∈ hosts (segments s),
      brandedSegments component true (segmentsFrom true p.1) = p.1) :
    branded component (branded component s) = branded component s := by
  rw [branded.eq_1 component (branded component s), segments_branded hn hj,
    brandedSegments_replacedAll hj hr, branded, brandedSegments_eq]

theorem branded_branded_list :
    let component := "Button".toList
    let s := "#a :host( .b > c:not(#d), .spectrum-Button-e )::before".toList
    let t := ".spectrum-Button-a .spectrum-Button.b > c:not(#d), .spectrum-Button-e::before".toList
    (Unescaped component ∧ (∀ p ∈ hosts (segments s), Joins p.1 p.2) ∧
      ∀ p ∈ hosts (segments s), brandedSegments component true (segmentsFrom true p.1) = p.1) ∧
    branded component s = t ∧ branded component t = t := by
  intro component s t
  have hn : Unescaped component := by decide
  have hj : ∀ p ∈ hosts (segments s), Joins p.1 p.2 := by decide +kernel
  have hr : ∀ p ∈ hosts (segments s),
      brandedSegments component true (segmentsFrom true p.1) = p.1 := by decide +kernel
  have ht : branded component s = t := by decide +kernel
  have hb := branded_branded hn hj hr
  rw [ht] at hb
  exact ⟨⟨hn, hj, hr⟩, ht, hb⟩

/-- The argument of a host can go on with the name of the class, can hold an id, or can end with a
combinator: each alone leaves something to rename. -/
theorem branded_branded_ne :
    let component := "Button".toList
    Unescaped component ∧
    (branded component ":host(a)".toList = ".spectrum-Buttona".toList ∧
      branded component (branded component ":host(a)".toList) =
        ".spectrum-Button-spectrum-Buttona".toList) ∧
    (branded component ":host(#a)".toList = ".spectrum-Button#a".toList ∧
      branded component (branded component ":host(#a)".toList) =
        ".spectrum-Button.spectrum-Button-a".toList) ∧
    (branded component ":host(.a >).b".toList = ".spectrum-Button.a >.b".toList ∧
      branded component (branded component ":host(.a >).b".toList) =
        ".spectrum-Button.a >.spectrum-Button-b".toList) := by
  decide +kernel

end ComponentSheet.Selector
