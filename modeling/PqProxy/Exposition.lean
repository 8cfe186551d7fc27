import PqProxy.Wire

/-! Named numbers in text: lines of samples under comments that describe them, lines of fields, and responses
that tell the length of their body. What is written is read back, whatever the numbers are, as long as no
name contains what separates it. -/

namespace Exposition

def digits (n : Nat) : Text := Nat.toDigits 10 n

/-- A name and a number, with the first `sep` between them. -/
def pairOf (sep : Char) (t : Text) : Option (Text × Nat) :=
  let value := (t.dropWhile (· ≠ sep)).drop 1
  if value ≠ [] ∧ ∀ c ∈ value, c.isDigit = true then
    some (t.takeWhile (· ≠ sep), Nat.ofDigitChars 10 value 0)
  else none

/-- A number with its name, what it tells, and what kind of number it is. -/
structure Family where
  name : Text
  help : Text
  kind : Text
  value : Nat

/-- The words that begin the comments on a family. -/
def helpWord : Text := ['#', ' ', 'H', 'E', 'L', 'P', ' ']

def typeWord : Text := ['#', ' ', 'T', 'Y', 'P', 'E', ' ']

def Family.text (f : Family) : Text :=
  helpWord ++ f.name ++ ' ' :: (f.help ++ '\n' :: (typeWord ++ f.name ++ ' ' ::
    (f.kind ++ '\n' :: (f.name ++ ' ' :: (digits f.value ++ ['\n'])))))

def render (fs : List Family) : Text := fs.flatMap Family.text

/-- A line of a scrape: comments tell nothing. -/
def sampleOf (line : Text) : Option (Text × Nat) :=
  if line.head? = some '#' then none else pairOf ' ' line

/-- Everything a scraper learns from a text. -/
def scrape (t : Text) : List (Text × Nat) := (t.splitOn '\n').filterMap sampleOf

/-- A word and the fields behind it: `sep` stands between them, and `is` between a name and its number. -/
def fieldLine (sep is : Char) (head : Text) (fields : List (Text × Nat)) : Text :=
  [sep].intercalate (head :: fields.map fun f => f.1 ++ is :: digits f.2)

def readFields (sep is : Char) (line : Text) : List (Text × Nat) :=
  (line.splitOn sep).filterMap (pairOf is)

/-- A status line and headers, each ended by a line break, an empty line, and the body. -/
def response (lines : List Text) (body : Text) : Text :=
  lines.flatMap (fun line => line ++ ['\r', '\n']) ++ '\r' :: '\n' :: body

/-- The name of the header that tells the length. -/
def lengthName : Text := ['C', 'o', 'n', 't', 'e', 'n', 't', '-', 'L', 'e', 'n', 'g', 't', 'h', ':']

/-- The lines before the first empty one, without their ends. -/
def headLines (t : Text) : List Text := ((t.splitOn '\n').takeWhile (· ≠ ['\r'])).map List.dropLast

/-- What stands behind the first empty line. -/
def bodyOf (t : Text) : Text := ['\n'].intercalate ((t.splitOn '\n').drop ((headLines t).length + 1))

/-- The status line and the body of a response whose length is the one it tells. -/
def readResponse (t : Text) : Option (Text × Text) :=
  match (headLines t).head?, ((headLines t).filterMap (pairOf ' ')).find? fun h => h.1 = lengthName with
  | some status, some (_, n) => if (bodyOf t).length = n then some (status, bodyOf t) else none
  | _, _ => none

theorem mem_digits {c : Char} {n : Nat} (h : c ∈ digits n) : c.isDigit = true :=
  Nat.isDigit_of_mem_toDigits (by decide) (by decide) h

theorem length_digits_le {n k : Nat} (hk : 0 < k) (h : n < 10 ^ k) : (digits n).length ≤ k :=
  (Nat.length_toDigits_le_iff (by decide) hk).mpr h

theorem not_mem_digits {c : Char} (h : c.isDigit = false) (n : Nat) : c ∉ digits n := fun hc =>
  Bool.false_ne_true (h.symm.trans (mem_digits hc))

theorem pairOf_digits {sep : Char} {name : Text} (h : sep ∉ name) (n : Nat) :
    pairOf sep (name ++ sep :: digits n) = some (name, n) := by
  have hfree : ∀ c ∈ name, decide (c ≠ sep) = true := fun c hc =>
    decide_eq_true fun heq => h (heq ▸ hc)
  have htake : (name ++ sep :: digits n).takeWhile (· ≠ sep) = name := by
    rw [List.takeWhile_append_of_pos hfree, List.takeWhile_cons_of_neg (by simp), List.append_nil]
  have hdrop : (name ++ sep :: digits n).dropWhile (· ≠ sep) = sep :: digits n := by
    rw [List.dropWhile_append_of_pos hfree, List.dropWhile_cons_of_neg (by simp)]
  unfold pairOf
  rw [htake, hdrop]
  dsimp only [List.drop_succ_cons, List.drop_zero]
  rw [if_pos ⟨Nat.toDigits_ne_nil, fun c hc => mem_digits hc⟩]
  exact congrArg (fun v => some (name, v)) Nat.ofDigitChars_ten_toDigits

/-! ### Samples -/

/-- Nothing in a family breaks its lines. -/
structure Family.Printable (f : Family) : Prop where
  hash : f.name.head? ≠ some '#'
  space : ' ' ∉ f.name
  name : '\n' ∉ f.name
  help : '\n' ∉ f.help
  kind : '\n' ∉ f.kind

theorem scrape_line {line : Text} (h : '\n' ∉ line) (rest : Text) :
    scrape (line ++ '\n' :: rest) = (sampleOf line).toList ++ scrape rest := by
  unfold scrape
  rw [List.splitOn_append_cons_self_of_not_mem h]
  cases hsample : sampleOf line with
  | none =>
      rw [List.filterMap_cons_none hsample]
      rfl
  | some pair =>
      rw [List.filterMap_cons_some hsample]
      rfl

theorem scrape_family {f : Family} (h : f.Printable) (rest : Text) :
    scrape (f.text ++ rest) = (f.name, f.value) :: scrape rest := by
  have hhelp : '\n' ∉ helpWord ++ f.name ++ ' ' :: f.help := by
    simp [helpWord, h.name, h.help]
  have hkind : '\n' ∉ typeWord ++ f.name ++ ' ' :: f.kind := by
    simp [typeWord, h.name, h.kind]
  have hvalue : '\n' ∉ f.name ++ ' ' :: digits f.value := by
    simp [h.name, not_mem_digits]
  have hsample : sampleOf (f.name ++ ' ' :: digits f.value) = some (f.name, f.value) := by
    have hhead : (f.name ++ ' ' :: digits f.value).head? ≠ some '#' := by
      cases hname : f.name with
      | nil => simp
      | cons c name => simpa [hname] using h.hash
    unfold sampleOf
    rw [if_neg hhead, pairOf_digits h.space]
  have htext : f.text ++ rest = (helpWord ++ f.name ++ ' ' :: f.help) ++ '\n' ::
      ((typeWord ++ f.name ++ ' ' :: f.kind) ++ '\n' ::
        ((f.name ++ ' ' :: digits f.value) ++ '\n' :: rest)) := by
    simp [Family.text]
  rw [htext, scrape_line hhelp, scrape_line hkind, scrape_line hvalue, hsample]
  rfl

/-- What is exposed is what is scraped. -/
theorem scrape_render {fs : List Family} (h : ∀ f ∈ fs, f.Printable) :
    scrape (render fs) = fs.map fun f => (f.name, f.value) := by
  induction fs with
  | nil => rfl
  | cons f fs ih =>
      rw [render, List.flatMap_cons, scrape_family (h f List.mem_cons_self), List.map_cons]
      exact congrArg _ (ih fun g hg => h g (List.mem_cons_of_mem _ hg))

theorem length_family {f : Family} (h : f.value < 10 ^ 20) :
    f.text.length ≤ f.name.length * 3 + f.help.length + f.kind.length + 40 := by
  have hdigits := length_digits_le (by decide) h
  have hwords : helpWord.length = 7 ∧ typeWord.length = 7 := ⟨rfl, rfl⟩
  simp only [Family.text, List.length_append, List.length_cons, List.length_nil, hwords]
  omega

theorem length_render {fs : List Family} (h : ∀ f ∈ fs, f.value < 10 ^ 20) : (render fs).length ≤
    (fs.map fun f => f.name.length * 3 + f.help.length + f.kind.length + 40).sum := by
  induction fs with
  | nil => exact Nat.le_refl 0
  | cons f fs ih =>
      have hfirst := length_family (h f List.mem_cons_self)
      have hrest := ih fun g hg => h g (List.mem_cons_of_mem _ hg)
      rw [render, List.flatMap_cons, List.length_append, List.map_cons, List.sum_cons]
      exact Nat.add_le_add hfirst hrest

section

variable {sep is : Char} {head : Text} {fields : List (Text × Nat)}

theorem readFields_fieldLine (hsep : sep.isDigit = false) (hne : sep ≠ is) (hhead : sep ∉ head)
    (hnone : pairOf is head = none) (h : ∀ f ∈ fields, sep ∉ f.1 ∧ is ∉ f.1) :
    readFields sep is (fieldLine sep is head fields) = fields := by
  have hpieces : ∀ t ∈ head :: fields.map (fun f => f.1 ++ is :: digits f.2), sep ∉ t := by
    intro t ht
    rcases List.mem_cons.mp ht with rfl | ht
    · exact hhead
    · obtain ⟨f, hf, rfl⟩ := List.mem_map.mp ht
      simp [(h f hf).1, hne, not_mem_digits hsep]
  unfold readFields fieldLine
  rw [List.splitOn_intercalate sep hpieces (List.cons_ne_nil _ _), List.filterMap_cons_none hnone,
    List.filterMap_map]
  calc fields.filterMap (pairOf is ∘ fun f => f.1 ++ is :: digits f.2)
    _ = fields.filterMap some := List.filterMap_congr fun f hf => pairOf_digits (h f hf).2 f.2
    _ = fields := List.filterMap_some

variable (sep is head) in
theorem length_fieldLine (h : ∀ f ∈ fields, f.2 < 10 ^ 20) :
    (fieldLine sep is head fields).length ≤ head.length + (fields.map fun f => f.1.length + 22).sum := by
  have hpiece : ∀ f ∈ fields, (f.1 ++ is :: digits f.2).length + 1 ≤ f.1.length + 22 := by
    intro f hf
    have hdigits := length_digits_le (by decide) (h f hf)
    simp only [List.length_append, List.length_cons]
    omega
  clear h
  unfold fieldLine
  induction fields generalizing head with
  | nil => simp
  | cons f fields ih =>
      have hrest := @ih (f.1 ++ is :: digits f.2) fun g hg => hpiece g (List.mem_cons_of_mem _ hg)
      have hfirst := hpiece f List.mem_cons_self
      rw [List.map_cons, List.intercalate_cons_cons, List.length_append, List.length_append,
        List.map_cons, List.sum_cons]
      simp only [List.length_singleton]
      omega

end

/-! ### Responses -/

section

variable {lines : List Text} {body : Text}

theorem splitOn_response (h : ∀ line ∈ lines, '\n' ∉ line) (body : Text) :
    (response lines body).splitOn '\n' =
      lines.map (fun line => line ++ ['\r']) ++ ['\r'] :: body.splitOn '\n' := by
  have hend : '\n' ∉ ['\r'] := by decide
  induction lines with
  | nil => exact List.splitOn_append_cons_self_of_not_mem hend body
  | cons line lines ih =>
      have hline : '\n' ∉ line ++ ['\r'] := by
        simp [h line List.mem_cons_self]
      have hcons : response (line :: lines) body = (line ++ ['\r']) ++ '\n' :: response lines body := by
        simp [response]
      rw [hcons, List.splitOn_append_cons_self_of_not_mem hline,
        ih fun other hother => h other (List.mem_cons_of_mem _ hother)]
      rfl

/-- The head and the body of a response are what it was made of. -/
theorem response_parts (h : ∀ line ∈ lines, '\n' ∉ line ∧ line ≠ []) (body : Text) :
    headLines (response lines body) = lines ∧ bodyOf (response lines body) = body := by
  have hsplit := splitOn_response (fun line hline => (h line hline).1) body
  have hopen : ∀ t ∈ lines.map (fun line => line ++ ['\r']), decide (t ≠ ['\r']) = true := by
    intro t ht
    obtain ⟨line, hline, rfl⟩ := List.mem_map.mp ht
    have hne := (h line hline).2
    simpa using hne
  have hhead : headLines (response lines body) = lines := by
    unfold headLines
    rw [hsplit, List.takeWhile_append_of_pos hopen, List.takeWhile_cons_of_neg (by simp), List.append_nil,
      List.map_map]
    calc lines.map (List.dropLast ∘ fun line => line ++ ['\r'])
      _ = lines.map id := List.map_congr_left fun line _ => List.dropLast_concat
      _ = lines := List.map_id lines
  refine ⟨hhead, ?_⟩
  unfold bodyOf
  rw [hhead, hsplit, List.drop_append, List.drop_eq_nil_of_le (by simp), List.length_map,
    Nat.add_sub_cancel_left]
  exact List.intercalate_splitOn '\n'

theorem length_found {pre : List Text} (h : ∀ line ∈ pre, pairOf ' ' line = none) (n : Nat) (post : List Text) :
    ((pre ++ (lengthName ++ ' ' :: digits n) :: post).filterMap (pairOf ' ')).find?
      (fun p => p.1 = lengthName) = some (lengthName, n) := by
  have hlength : pairOf ' ' (lengthName ++ ' ' :: digits n) = some (lengthName, n) :=
    pairOf_digits (by decide) n
  rw [List.filterMap_append, List.filterMap_eq_nil_iff.mpr h, List.nil_append,
    List.filterMap_cons_some hlength]
  exact List.find?_cons_of_pos (decide_eq_true rfl)

/-- A response that tells the length of its body is read as it was meant. -/
theorem readResponse_response (status : Text) (pre post : List Text)
    (hpre : ∀ line ∈ status :: pre, '\n' ∉ line ∧ line ≠ [] ∧ pairOf ' ' line = none)
    (hpost : ∀ line ∈ post, '\n' ∉ line ∧ line ≠ []) (body : Text) :
    readResponse (response (status :: pre ++ (lengthName ++ ' ' :: digits body.length) :: post) body) =
      some (status, body) := by
  have hlines : ∀ line ∈ status :: pre ++ (lengthName ++ ' ' :: digits body.length) :: post,
      '\n' ∉ line ∧ line ≠ [] := by
    intro line hline
    rcases List.mem_append.mp hline with hline | hline
    · exact ⟨(hpre line hline).1, (hpre line hline).2.1⟩
    · rcases List.mem_cons.mp hline with rfl | hline
      · refine ⟨fun hmem => ?_, by simp⟩
        rcases List.mem_append.mp hmem with hmem | hmem
        · exact absurd hmem (by decide)
        · exact not_mem_digits (by decide) body.length ((List.mem_cons.mp hmem).resolve_left (by decide))
      · exact hpost line hline
  obtain ⟨hhead, hbody⟩ := response_parts hlines body
  unfold readResponse
  rw [hhead, hbody, length_found (fun line hline => (hpre line hline).2.2)]
  exact if_pos rfl

theorem response_append (lines : List Text) (body : Text) :
    response lines body = response lines [] ++ body := by
  simp [response]

theorem length_response (lines : List Text) (body : Text) :
    (response lines body).length = (lines.map fun line => line.length + 2).sum + 2 + body.length := by
  have hlines : (lines.flatMap fun line => line ++ ['\r', '\n']).length =
      (lines.map fun line => line.length + 2).sum := by
    rw [List.length_flatMap]
    exact congrArg List.sum (List.map_congr_left fun line _ => List.length_append)
  rw [response, List.length_append, hlines]
  simp only [List.length_cons]
  omega

end

end Exposition
