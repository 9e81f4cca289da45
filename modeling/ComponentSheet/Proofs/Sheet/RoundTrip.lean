import ComponentSheet.Proofs.Sheet.Events
import ComponentSheet.Proofs.Sheet.Nodes
import ComponentSheet.Proofs.Sheet.Rows

/-! A printed stylesheet is read back as it was. -/
namespace ComponentSheet

open Event

/-- A declaration whose parts are found again, each at its end. -/
structure Declaration.Formed (x : Declaration) : Prop where
  property_trimmed : x.property.trim = x.property
  property_ne_nil : x.property ≠ []
  no_colon : ':' ∉ x.property
  no_at : x.property.head? ≠ some '@'
  value_trimmed : x.value.trim = x.value
  unmarked : x.important = false → endsImportant x.value = false

instance (x : Declaration) : Decidable x.Formed :=
  decidable_of_iff (x.property.trim = x.property ∧ x.property ≠ [] ∧ ':' ∉ x.property ∧
      x.property.head? ≠ some '@' ∧ x.value.trim = x.value ∧
      (x.important = false → Declaration.endsImportant x.value = false))
    ⟨fun ⟨a, b, c, d, e, f⟩ => ⟨a, b, c, d, e, f⟩, fun ⟨a, b, c, d, e, f⟩ => ⟨a, b, c, d, e, f⟩⟩

namespace Node

/-- The text of a node that is read as a prelude. -/
def prelude? : Node → Option Text
  | rule selector _ _ => some selector
  | block _ params _ _ | statement _ params _ => some params
  | declaration x _ => some x.text.trim
  | comment .. => none

/-- What a node is apart from its prelude, whatever is in its block. -/
def Formed : Node → Prop
  | rule selector _ _ => selector ≠ [] ∧ selector.head? ≠ some '@'
  | block name _ _ _ | statement name _ _ => ∀ c ∈ name, isWordChar c
  | declaration x _ => x.Formed
  | comment text _ => text.trim = text ∧ ¬ ['*', '/'] <:+: text

instance (n : Node) : Decidable n.Formed :=
  match n with
  | rule selector _ _ => inferInstanceAs (Decidable (selector ≠ [] ∧ selector.head? ≠ some '@'))
  | block name _ _ _ | statement name _ _ =>
    decidable_of_iff (name.all isWordChar) List.all_eq_true
  | declaration x _ => inferInstanceAs (Decidable x.Formed)
  | comment text _ => inferInstanceAs (Decidable (text.trim = text ∧ ¬ ['*', '/'] <:+: text))

/-- A node that is read back as it was printed. -/
structure WellFormed (n : Node) : Prop where
  formed : n.Formed
  plain : ∀ s ∈ n.prelude?, Plain s

instance (n : Node) : Decidable n.WellFormed :=
  decidable_of_iff (n.Formed ∧ ∀ s ∈ n.prelude?, Plain s) ⟨fun h => ⟨h.1, h.2⟩, fun h => ⟨h.1, h.2⟩⟩

end Node

/-- Sheets that differ in the positions of their nodes, and in the blanks at the ends of the lines
of their selectors. -/
inductive Alike : List Node → List Node → Prop
  | nil : Alike [] []
  | rule {s t : Text} {m m' l l' : List Node} {p q : Position}
      (hs : Text.trimmedLines s = Text.trimmedLines t) (hm : Alike m m') (hl : Alike l l') :
      Alike (.rule s m p :: l) (.rule t m' q :: l')
  | block {name params : Text} {m m' l l' : List Node} {p q : Position}
      (hm : Alike m m') (hl : Alike l l') :
      Alike (.block name params m p :: l) (.block name params m' q :: l')
  | statement {name params : Text} {l l' : List Node} {p q : Position} (hl : Alike l l') :
      Alike (.statement name params p :: l) (.statement name params q :: l')
  | declaration {x : Declaration} {l l' : List Node} {p q : Position} (hl : Alike l l') :
      Alike (.declaration x p :: l) (.declaration x q :: l')
  | comment {text : Text} {l l' : List Node} {p q : Position} (hl : Alike l l') :
      Alike (.comment text p :: l) (.comment text q :: l')

variable {s t name params text : Text} {pos pos' : Position} {d : Nat} {n : Node}
  {children l l' m m' : List Node} {es fs gs : List Event} {x : Declaration}

theorem Alike.append (h : Alike l l') (hm : Alike m m') : Alike (l ++ m) (l' ++ m') := by
  induction h with
  | nil => exact hm
  | rule hs hc _ _ ih => exact .rule hs hc ih
  | block hc _ _ ih => exact .block hc ih
  | statement _ ih => exact .statement ih
  | declaration _ ih => exact .declaration ih
  | comment _ ih => exact .comment ih

theorem Alike.rowsAll (h : Alike l l') (d : Nat) : rowsAll d l = ComponentSheet.rowsAll d l' := by
  induction h generalizing d with
  | nil => rfl
  | rule hs _ _ ihc ih =>
    simp only [ComponentSheet.rowsAll, rows, selectorText_eq, hs, ihc, ih]
  | block _ _ ihc ih => simp only [ComponentSheet.rowsAll, rows, ihc, ih]
  | statement _ ih | declaration _ ih | comment _ ih =>
    simp only [ComponentSheet.rowsAll, rows, ih]

theorem Alike.cons {n n' : Node} (h : Alike (n :: l) (n' :: l')) :
    Alike [n] [n'] ∧ Alike l l' ∧ n.hasBlock = n'.hasBlock := by
  cases h with
  | rule hs hm hl => exact ⟨.rule hs hm .nil, hl, rfl⟩
  | block hm hl => exact ⟨.block hm .nil, hl, rfl⟩
  | statement hl => exact ⟨.statement .nil, hl, rfl⟩
  | declaration hl => exact ⟨.declaration .nil, hl, rfl⟩
  | comment hl => exact ⟨.comment .nil, hl, rfl⟩

theorem printNode_eq (d : Nat) (n : Node) : printNode d n = (rowsAll d [n]).flatten := by
  rw [printNode, rowsAll, rowsAll, List.append_nil]

/-- What is printed of the top-level nodes behind the first one. -/
def printOthers (l : List Node) : Text :=
  l.flatMap fun m => if m.hasBlock then '\n' :: printNode 0 m else printNode 0 m

theorem printOthers_cons (n : Node) (l : List Node) :
    printOthers (n :: l) =
      (if n.hasBlock then ['\n'] else []) ++ printNode 0 n ++ printOthers l := by
  rw [printOthers, List.flatMap_cons]
  split <;> rfl

theorem Alike.printOthers (h : Alike l l') : printOthers l = ComponentSheet.printOthers l' := by
  induction l generalizing l' with
  | nil =>
    cases h
    rfl
  | cons n l ih =>
    cases l' with
    | nil => cases h
    | cons n' l' =>
      obtain ⟨hn, hl, hb⟩ := h.cons
      rw [printOthers_cons, printOthers_cons, printNode_eq, printNode_eq, hn.rowsAll, hb, ih hl]

/-- The printed form keeps nothing of what alike sheets differ in. -/
theorem Alike.printSheet (h : Alike l l') : printSheet l = ComponentSheet.printSheet l' := by
  cases l with
  | nil =>
    cases h
    rfl
  | cons n l =>
    cases l' with
    | nil => cases h
    | cons n' l' =>
      obtain ⟨hn, hl, -⟩ := h.cons
      have hothers := hl.printOthers
      rw [ComponentSheet.printSheet, ComponentSheet.printSheet, printNode_eq, printNode_eq,
        hn.rowsAll]
      exact congrArg _ hothers

theorem exists_eventsOf_feed (pos : Position) (t : Text) :
    ∃ pos', eventsOf (stamp pos ('\n' :: t)) = eventsOf (stamp pos' t) :=
  ⟨_, eventsOf_blank (by decide) _⟩

theorem exists_eventsOf_rule (h : Plain s) (hne : s ≠ []) (ha : s.head? ≠ some '@') (d : Nat)
    (pos : Position) (t : Text) :
    ∃ r pos₁ pos₂, Text.trimmedLines r = Text.trimmedLines s ∧
      eventsOf (stamp pos (selectorText d s ++ " \x7b\n".toList ++ t)) =
        .opens (.rule r) pos₁ :: eventsOf (stamp pos₂ t) := by
  obtain ⟨r, htrim, hr, hhead, hlines⟩ := exists_trim_selectorText h.trimmed hne d
  have hfeed : s.getLast? ≠ some '\n' := by
    intro hl
    have hb := (Text.trim_eq_self_iff.1 h.trimmed).2 _ hl
    exact absurd hb (by decide)
  have hrow : Passes (.outside 0) (selectorText d s ++ [' ']) (.outside 0) :=
    (passes_selectorText rfl h.passes hfeed).append (.blanks rfl (by decide) (by decide))
      (.inr (by decide))
  have hall : (selectorText d s ++ [' ']).trim = r := by
    rw [Text.trim_append_right (by decide), htrim]
  have hbrace : Ending.brace.mark? = some '{' := rfl
  obtain ⟨pos₁, pos₂, he⟩ := exists_eventsOf_prelude hbrace hrow (by rwa [hall])
    (by rwa [hall, hhead]) pos ('\n' :: t)
  obtain ⟨pos₃, hn⟩ := exists_eventsOf_feed pos₂ t
  refine ⟨r, pos₁, pos₃, hlines, ?_⟩
  rw [show selectorText d s ++ " \x7b\n".toList ++ t =
    selectorText d s ++ [' '] ++ '{' :: '\n' :: t by simp, he, hn, hall, ofPrelude?_rule hr]
  rfl

theorem exists_eventsOf_atRuleText {ending : Ending} {c : Char} {v : Text}
    (hm : ending.mark? = some c) (hw : ∀ x ∈ name, isWordChar x) (h : Plain params)
    (hv : v = [] ∨ v = [' ']) (d : Nat) (pos : Position) (t : Text) :
    ∃ pos₁ pos₂, eventsOf (stamp pos (atRuleText d name params ++ v ++ c :: '\n' :: t)) =
      ofAtRule name params ending pos₁ :: eventsOf (stamp pos₂ t) := by
  obtain ⟨s, hs, hpass, htrim, hhead⟩ := exists_printed_params h hv
  have hword : ∀ x ∈ s.head?, isWordChar x = false := by
    intro x hx
    rw [hhead x hx]
    decide +kernel
  obtain ⟨pos₁, he⟩ := exists_eventsOf_atRule hm hw hpass hword (pos.after (indentation d))
    ('\n' :: t)
  obtain ⟨pos₂, hn⟩ := exists_eventsOf_feed pos₁ t
  refine ⟨pos.after (indentation d), pos₂, ?_⟩
  rw [atRuleText, List.append_assoc (indentation d ++ '@' :: name), hs,
    List.append_assoc (indentation d), List.append_assoc (indentation d),
    eventsOf_blanks (all_indentation d), he, hn, htrim]

theorem exists_eventsOf_declaration (h : x.Formed) (hplain : Plain x.text.trim) (d : Nat)
    (pos : Position) (t : Text) :
    ∃ pos₁ pos₂, eventsOf (stamp pos (indentation d ++ x.text ++ [';', '\n'] ++ t)) =
      .node (.declaration x pos₁) :: eventsOf (stamp pos₂ t) := by
  have hread := Declaration.ofText?_text h.property_trimmed h.property_ne_nil h.no_colon
    h.value_trimmed h.unmarked
  have hrow : Passes (.outside 0) (indentation d ++ x.text) (.outside 0) := by
    rw [← passes_trim_iff, Text.trim_append_left (all_indentation d)]
    exact hplain.passes
  have htrim : (indentation d ++ x.text).trim = x.text.trim :=
    Text.trim_append_left (all_indentation d)
  have hsemicolon : Ending.semicolon.mark? = some ';' := rfl
  have hne : x.text.trim ≠ [] := by
    intro hnil
    rw [hnil] at hread
    cases hread
  have hat : x.text.trim.head? ≠ some '@' := by
    rw [Declaration.head_trim_text h.property_trimmed h.property_ne_nil h.value_trimmed h.unmarked]
    exact h.no_at
  obtain ⟨pos₁, pos₂, he⟩ := exists_eventsOf_prelude hsemicolon hrow (by rwa [htrim])
    (by rwa [htrim]) pos ('\n' :: t)
  obtain ⟨pos₃, hn⟩ := exists_eventsOf_feed pos₂ t
  refine ⟨pos₁, pos₃, ?_⟩
  rw [show indentation d ++ x.text ++ [';', '\n'] ++ t =
    indentation d ++ x.text ++ ';' :: '\n' :: t by simp, he, hn, htrim,
    ofPrelude?_declaration hread]
  rfl

theorem exists_eventsOf_commentRow (h : text.trim = text) (hi : ¬ ['*', '/'] <:+: text) (d : Nat)
    (pos : Position) (t : Text) :
    ∃ pos₁ pos₂, eventsOf (stamp pos
        (indentation d ++ "/* ".toList ++ text ++ " */\n".toList ++ t)) =
      .node (.comment text pos₁) :: eventsOf (stamp pos₂ t) := by
  have hbody : ¬ ['*', '/'] <:+: ' ' :: text ++ [' '] := by
    rw [List.infix_concat_iff, List.infix_cons_iff, not_or]
    refine ⟨?_, by simp [hi]⟩
    rintro ⟨u, hu⟩
    have hlast := congrArg List.getLast? hu
    rw [List.getLast?_concat] at hlast
    simp at hlast
  have htrim : Text.trim (' ' :: text ++ [' ']) = text := by
    rw [Text.trim_append_right (by decide)]
    exact (Text.trim_append_left (u := [' ']) (by decide)).trans h
  obtain ⟨pos₁, he⟩ := exists_eventsOf_comment hbody (pos.after (indentation d)) ('\n' :: t)
  obtain ⟨pos₂, hn⟩ := exists_eventsOf_feed pos₁ t
  refine ⟨pos.after (indentation d), pos₂, ?_⟩
  rw [show indentation d ++ "/* ".toList ++ text ++ " */\n".toList ++ t =
      indentation d ++ ('/' :: '*' :: (' ' :: text ++ [' ']) ++ '*' :: '/' :: '\n' :: t) by simp,
    eventsOf_blanks (all_indentation d), he, hn, htrim]

theorem exists_eventsOf_closeRow (d : Nat) (pos : Position) (t : Text) :
    ∃ pos₁ pos₂, eventsOf (stamp pos (indentation d ++ "\x7d\n".toList ++ t)) =
      .closes pos₁ :: eventsOf (stamp pos₂ t) := by
  obtain ⟨pos₂, hn⟩ := exists_eventsOf_feed ((pos.after (indentation d)).next '}') t
  refine ⟨pos.after (indentation d), pos₂, ?_⟩
  rw [show indentation d ++ "\x7d\n".toList ++ t = indentation d ++ ('}' :: '\n' :: t) by simp,
    eventsOf_blanks (all_indentation d), stamp_cons, eventsOf_close, hn]

/-- The events begin with those of the nodes `l`, and `fs` are the others. -/
def Adds (es : List Event) (l : List Node) (fs : List Event) : Prop :=
  ∀ frames nodes, nodesOfEvents frames nodes es = nodesOfEvents frames (l.reverse ++ nodes) fs

theorem Adds.nil (es : List Event) : Adds es [] es :=
  fun _ _ => rfl

theorem Adds.append (h : Adds es l fs) (hm : Adds fs m gs) : Adds es (l ++ m) gs := by
  intro frames nodes
  rw [h, hm, List.reverse_append, List.append_assoc]

theorem Adds.node (n : Node) (es : List Event) : Adds (.node n :: es) [n] es := by
  intro frames nodes
  simp [nodesOfEvents]

theorem Adds.block {o : Opening} (h : Adds es l (.closes pos' :: fs)) (pos : Position) :
    Adds (.opens o pos :: es) [o.node pos l] fs := by
  intro frames nodes
  rw [nodesOfEvents, h]
  simp [nodesOfEvents]

/-- The rows of the nodes add nodes like them. -/
def ReadBack (d : Nat) (l : List Node) : Prop :=
  ∀ pos t, ∃ l' pos', Alike l' l ∧
    Adds (eventsOf (stamp pos ((rowsAll d l).flatten ++ t))) l' (eventsOf (stamp pos' t))

/-- The rows in a block, its closing row, and the rows behind it. -/
theorem ReadBack.block (hc : ReadBack (d + 1) children) (hl : ReadBack d l) (o : Opening)
    (pos₁ pos₂ : Position) (t : Text) :
    ∃ children' l' pos', Alike children' children ∧ Alike l' l ∧
      Adds (.opens o pos₁ :: eventsOf (stamp pos₂ ((rowsAll (d + 1) children).flatten ++
          (indentation d ++ "\x7d\n".toList ++ ((rowsAll d l).flatten ++ t)))))
        (o.node pos₁ children' :: l') (eventsOf (stamp pos' t)) := by
  obtain ⟨children', pos₃, hac, hadds⟩ :=
    hc pos₂ (indentation d ++ "\x7d\n".toList ++ ((rowsAll d l).flatten ++ t))
  obtain ⟨pos₄, pos₅, hclose⟩ := exists_eventsOf_closeRow d pos₃ ((rowsAll d l).flatten ++ t)
  obtain ⟨l', pos₆, hal, hrest⟩ := hl pos₅ t
  rw [hclose] at hadds
  exact ⟨children', l', pos₆, hac, hal, (hadds.block pos₁).append hrest⟩

theorem ReadBack.leaf (hl : ReadBack d l) (n : Node) (pos : Position) (t : Text) :
    ∃ l' pos', Alike l' l ∧
      Adds (.node n :: eventsOf (stamp pos ((rowsAll d l).flatten ++ t))) (n :: l')
        (eventsOf (stamp pos' t)) := by
  obtain ⟨l', pos', ha, hadds⟩ := hl pos t
  exact ⟨l', pos', ha, (Adds.node n _).append hadds⟩

theorem readBack_rule (h : Node.WellFormed (.rule s children pos)) (hc : ReadBack (d + 1) children)
    (hl : ReadBack d l) : ReadBack d (.rule s children pos :: l) := by
  obtain ⟨⟨hne, hat⟩, hplain⟩ := h
  intro p t
  obtain ⟨r, p₁, p₂, hlines, hopen⟩ := exists_eventsOf_rule (hplain s rfl) hne hat d p
    ((rowsAll (d + 1) children).flatten ++
      (indentation d ++ "\x7d\n".toList ++ ((rowsAll d l).flatten ++ t)))
  obtain ⟨children', l', p', hac, hal, hadds⟩ := hc.block hl (.rule r) p₁ p₂ t
  refine ⟨.rule r children' p₁ :: l', p', .rule hlines hac hal, ?_⟩
  rw [← hopen] at hadds
  simpa [rowsAll, rows, Opening.node] using hadds

theorem readBack_block (h : Node.WellFormed (.block name params children pos))
    (hc : ReadBack (d + 1) children) (hl : ReadBack d l) :
    ReadBack d (.block name params children pos :: l) := by
  have hbrace : Ending.brace.mark? = some '{' := rfl
  intro p t
  obtain ⟨p₁, p₂, hopen⟩ := exists_eventsOf_atRuleText hbrace h.formed (h.plain _ rfl) (.inr rfl)
    d p ((rowsAll (d + 1) children).flatten ++
      (indentation d ++ "\x7d\n".toList ++ ((rowsAll d l).flatten ++ t)))
  obtain ⟨children', l', p', hac, hal, hadds⟩ := hc.block hl (.block name params) p₁ p₂ t
  refine ⟨.block name params children' p₁ :: l', p', .block hac hal, ?_⟩
  rw [ofAtRule, if_pos rfl] at hopen
  rw [← hopen] at hadds
  simpa [rowsAll, rows, Opening.node] using hadds

theorem readBack_leaf (hn : n.hasBlock = false) (h : n.WellFormed) (hl : ReadBack d l) :
    ReadBack d (n :: l) := by
  intro p t
  cases n with
  | rule | block => cases hn
  | statement name params pos =>
    have hsemicolon : Ending.semicolon.mark? = some ';' := rfl
    obtain ⟨p₁, p₂, hrow⟩ := exists_eventsOf_atRuleText hsemicolon h.formed (h.plain _ rfl)
      (.inl rfl) d p ((rowsAll d l).flatten ++ t)
    obtain ⟨l', p', ha, hadds⟩ := hl.leaf (.statement name params p₁) p₂ t
    refine ⟨.statement name params p₁ :: l', p', .statement ha, ?_⟩
    rw [ofAtRule, if_neg (by decide)] at hrow
    rw [← hrow] at hadds
    simpa [rowsAll, rows] using hadds
  | declaration x pos =>
    obtain ⟨p₁, p₂, hrow⟩ := exists_eventsOf_declaration h.formed (h.plain _ rfl) d p
      ((rowsAll d l).flatten ++ t)
    obtain ⟨l', p', ha, hadds⟩ := hl.leaf (.declaration x p₁) p₂ t
    refine ⟨.declaration x p₁ :: l', p', .declaration ha, ?_⟩
    rw [← hrow] at hadds
    simpa [rowsAll, rows] using hadds
  | comment text pos =>
    obtain ⟨p₁, p₂, hrow⟩ := exists_eventsOf_commentRow h.formed.1 h.formed.2 d p
      ((rowsAll d l).flatten ++ t)
    obtain ⟨l', p', ha, hadds⟩ := hl.leaf (.comment text p₁) p₂ t
    refine ⟨.comment text p₁ :: l', p', .comment ha, ?_⟩
    rw [← hrow] at hadds
    simpa [rowsAll, rows] using hadds

theorem readBack (h : ∀ n ∈ nodesWithin l, n.WellFormed) (d : Nat) : ReadBack d l := by
  fun_induction nodesWithin l generalizing d with
  | case1 => exact fun pos t => ⟨[], pos, .nil, .nil _⟩
  | case2 selector children pos l ihc ih =>
    rw [List.cons_append, List.forall_mem_cons, List.forall_mem_append] at h
    exact readBack_rule h.1 (ihc h.2.1 (d + 1)) (ih h.2.2 d)
  | case3 name params children pos l ihc ih =>
    rw [List.cons_append, List.forall_mem_cons, List.forall_mem_append] at h
    exact readBack_block h.1 (ihc h.2.1 (d + 1)) (ih h.2.2 d)
  | case4 n l h₁ h₂ ih =>
    rw [List.forall_mem_cons] at h
    refine readBack_leaf ?_ h.1 (ih h.2 d)
    cases n with
    | rule s children pos => exact (h₁ s children pos rfl).elim
    | block name params children pos => exact (h₂ name params children pos rfl).elim
    | _ => rfl

theorem exists_adds_printOthers (h : ∀ n ∈ nodesWithin l, n.WellFormed) (pos : Position) :
    ∃ l', Alike l' l ∧ Adds (eventsOf (stamp pos (printOthers l))) l' [] := by
  induction l generalizing pos with
  | nil => exact ⟨[], .nil, by simpa [printOthers] using Adds.nil []⟩
  | cons n l ih =>
    rw [nodesWithin_cons, List.forall_mem_append] at h
    have hblank : (if n.hasBlock then ['\n'] else []).all isBlank := by split <;> decide
    obtain ⟨first, pos', haf, hfirst⟩ := readBack h.1 0
      (pos.after (if n.hasBlock then ['\n'] else [])) (printOthers l)
    obtain ⟨l', hal, hrest⟩ := ih h.2 pos'
    refine ⟨first ++ l', haf.append hal, ?_⟩
    rw [printOthers_cons, List.append_assoc, eventsOf_blanks hblank, printNode_eq]
    exact hfirst.append hrest

theorem exists_adds_printSheet (h : ∀ n ∈ nodesWithin l, n.WellFormed) (pos : Position) :
    ∃ l', Alike l' l ∧ Adds (eventsOf (stamp pos (printSheet l))) l' [] := by
  cases l with
  | nil => exact ⟨[], .nil, by simpa [printSheet] using Adds.nil []⟩
  | cons n l =>
    rw [nodesWithin_cons, List.forall_mem_append] at h
    obtain ⟨first, pos', haf, hfirst⟩ := readBack h.1 0 pos (printOthers l)
    obtain ⟨l', hal, hrest⟩ := exists_adds_printOthers h.2 pos'
    refine ⟨first ++ l', haf.append hal, ?_⟩
    rw [printSheet, printNode_eq]
    exact hfirst.append hrest

theorem readSheet_of_adds (h : Adds (eventsOf (stamp Position.first s)) l []) :
    readSheet s = .ok l := by
  rw [readSheet, h, nodesOfEvents]
  simp

/-- Reading undoes printing, but for positions and the blanks at the ends of the lines of
selectors. -/
theorem exists_readSheet_printSheet {sheet : List Node}
    (h : ∀ n ∈ nodesWithin sheet, n.WellFormed) :
    ∃ sheet', readSheet (printSheet sheet) = .ok sheet' ∧ Alike sheet' sheet := by
  obtain ⟨sheet', ha, hadds⟩ := exists_adds_printSheet h Position.first
  exact ⟨sheet', readSheet_of_adds hadds, ha⟩

theorem exists_readSheet_printSheet_nested :
    let sheet : List Node := [
      .comment "theme".toList .unknown,
      .statement "import".toList "url(\"a;b.css\") screen".toList .unknown,
      .block "media".toList "(min-width: 1px)".toList [
        .rule "a[title=\"\x7b\"],\n    .b > c".toList [
          .declaration ⟨"color".toList, "red".toList, true⟩ .unknown,
          .declaration ⟨"--empty".toList, [], false⟩ .unknown] .unknown] .unknown]
    (∀ n ∈ nodesWithin sheet, n.WellFormed) ∧
      ∃ sheet', readSheet (printSheet sheet) = .ok sheet' ∧ Alike sheet' sheet := by
  intro sheet
  have h : ∀ n ∈ nodesWithin sheet, n.WellFormed := by
    simp only [sheet, nodesWithin, List.cons_append, List.nil_append]
    decide +kernel
  exact ⟨h, exists_readSheet_printSheet h⟩

end ComponentSheet
