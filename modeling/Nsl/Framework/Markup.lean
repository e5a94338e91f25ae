import Nsl.Framework.Html

/-! # Markup and text

  What a page is made of: tags, and the characters between them. A tag begins
  with `<` and ends with the next `>` that is not in a quoted value. What
  stands in a page as text is decoded when it is shown.

  - `pieces_append`: a page whose front ends between tags is made of the pieces
    of both parts.
  - `decode_escaped`: an escape that decodes character by character.
-/

namespace Framework.Html

inductive Piece where
  | tag (text : List Char)
  | char (c : Char)
deriving DecidableEq

/-- Where a reader of the page stands. -/
inductive Mode where
  | data
  /-- in a tag, of which this is read -/
  | tag (read : List Char)
  | quoted (quote : Char) (read : List Char)
deriving DecidableEq

/-- One more character. -/
def step (mode : Mode) (c : Char) : List Piece × Mode :=
  match mode with
  | .data => if c = '<' then ([], .tag [c]) else ([.char c], .data)
  | .tag read =>
    if c = '>' then ([.tag (read ++ [c])], .data)
    else if c = '"' ∨ c = '\'' then ([], .quoted c (read ++ [c]))
    else ([], .tag (read ++ [c]))
  | .quoted quote read =>
    ([], if c = quote then .tag (read ++ [c]) else .quoted quote (read ++ [c]))

def scan (mode : Mode) : List Char → List Piece × Mode
  | [] => ([], mode)
  | c :: s =>
    let front := step mode c
    let back := scan front.2 s
    (front.1 ++ back.1, back.2)

/-- What a page is made of. A tag that does not end is none. -/
def pieces (s : List Char) : List Piece := (scan .data s).1

/-- The text ends between tags. -/
def Closed (s : List Char) : Prop := (scan .data s).2 = .data

instance decidableClosed (s : List Char) : Decidable (Closed s) :=
  inferInstanceAs (Decidable ((scan .data s).2 = .data))

theorem scan_append (mode : Mode) (s t : List Char) :
    scan mode (s ++ t) =
      ((scan mode s).1 ++ (scan (scan mode s).2 t).1, (scan (scan mode s).2 t).2) := by
  induction s generalizing mode with
  | nil => rfl
  | cons c s ih =>
    rw [List.cons_append, scan, scan, ih]
    simp only [List.append_assoc]

theorem Closed.append {s t : List Char} (hs : Closed s) (ht : Closed t) : Closed (s ++ t) := by
  unfold Closed at *
  rw [scan_append, hs]
  exact ht

/-- Behind a text that ends between tags, the rest is read as if it stood
    alone. -/
theorem pieces_append {s : List Char} (hs : Closed s) (t : List Char) :
    pieces (s ++ t) = pieces s ++ pieces t := by
  unfold Closed at hs
  rw [pieces, scan_append, hs]
  rfl

/-- A text without `<` is text. -/
theorem pieces_text {s : List Char} (h : '<' ∉ s) : Closed s ∧ pieces s = s.map .char := by
  unfold Closed pieces
  induction s with
  | nil => exact ⟨rfl, rfl⟩
  | cons c s ih =>
    have hc : c ≠ '<' := fun heq => h (heq ▸ List.mem_cons_self)
    obtain ⟨hmode, hpieces⟩ := ih fun hmem => h (List.mem_cons_of_mem _ hmem)
    have hstep : step .data c = ([.char c], .data) := if_neg hc
    rw [scan, hstep]
    exact ⟨hmode, congrArg (Piece.char c :: ·) hpieces⟩

/-! ### Escaped text -/

section
variable {refs : References} {in_attr : Bool}

/-- A named reference with a semicolon is read wherever it stands. -/
theorem decode_named {w v : List Char} (h : refs.named (w ++ [';']) = some v)
    (hhash : w.head? ≠ some '#') (hne : w ≠ []) (s : List Char) :
    decode_references refs in_attr ('&' :: (w ++ [';']) ++ s) =
      v ++ decode_references refs in_attr s := by
  have hhead : ((w ++ [';']) ++ s).head? ≠ some '#' := by
    obtain ⟨d, w, rfl⟩ := List.exists_cons_of_ne_nil hne
    exact hhash
  have hreference : reference refs in_attr ((w ++ [';']) ++ s) = some ((w ++ [';']).length, v) := by
    unfold reference
    rw [numeric_reference_eq_none hhead, Option.none_or, List.append_assoc,
      List.singleton_append, named_reference_semicolon h, List.length_append]
    rfl
  rw [List.cons_append, decode_references_some hreference]

/-- An escape that decodes character by character is undone. -/
theorem decode_escaped {escape : Char → List Char}
    (h : ∀ c s, decode_references refs in_attr (escape c ++ s) =
      c :: decode_references refs in_attr s) (s : List Char) :
    decode_references refs in_attr (s.flatMap escape) = s := by
  induction s with
  | nil => rfl
  | cons c s ih => rw [List.flatMap_cons, h, ih]

end

end Framework.Html
