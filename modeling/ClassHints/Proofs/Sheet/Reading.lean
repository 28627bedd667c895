import ClassHints.Proofs.Sheet.Lexing
import ClassHints.Sheet.Reader

/-!
# Reading a text part by part

The reader passes over the lexemes of a text. Since a lexeme ends where the next one begins,
a text can be read in parts: blanks between nodes, a comment, the words of a prelude up to
the character that ends it, a brace. Each part has one equation for the state it leaves.
-/

namespace ClassHints.Sheet

open Text

namespace Reader

/-- Read all lexemes of a text. -/
def read (r : Reader) (t : Text) : Except Fault Reader := (lexemes t).foldlM step r

/-- The reader moved past a text that has no other effect. -/
def moved (r : Reader) (t : Text) : Reader := { r with spot := r.spot.advance t }

/-- Past no text a reader is not moved. -/
@[simp]
theorem moved_nil (r : Reader) : r.moved [] = r := rfl

/-- A reader that is moved twice is moved past both texts. -/
@[simp]
theorem moved_moved (r : Reader) (s t : Text) : (r.moved s).moved t = r.moved (s ++ t) := by
  simp [moved, Spot.advance_append]

/-- Moving a reader leaves its prelude alone. -/
@[simp]
theorem prelude_moved (r : Reader) (t : Text) : (r.moved t).prelude = r.prelude := rfl

/-- Moving a reader leaves its open blocks alone. -/
@[simp]
theorem frames_moved (r : Reader) (t : Text) : (r.moved t).frames = r.frames := rfl

/-- Moving a reader leaves its nodes alone. -/
@[simp]
theorem nodes_moved (r : Reader) (t : Text) : (r.moved t).nodes = r.nodes := rfl

/-- Moving a reader leaves the comments that wait alone. -/
@[simp]
theorem waiting_moved (r : Reader) (t : Text) : (r.moved t).waiting = r.waiting := rfl

/-- Moving a reader advances its place by the text. -/
@[simp]
theorem spot_moved (r : Reader) (t : Text) : (r.moved t).spot = r.spot.advance t := rfl

/-- Reading no text changes nothing. -/
@[simp]
theorem read_nil (r : Reader) : r.read [] = .ok r := rfl

/-- Reading a text that starts with a lexeme of known extent and effect. -/
theorem read_append {r r' : Reader} {c : Char} {u v : Text} {token : Token} {n : Nat}
    (hfront : Token.front c (u ++ v) = (token, n)) (hn : n - 1 = u.length)
    (hstep : r.step ⟨token, c :: u⟩ = .ok r') : r.read (c :: (u ++ v)) = r'.read v := by
  unfold read
  rw [lexemes_append hfront hn, List.foldlM_cons, hstep]
  rfl

/-- Between nodes a lexeme has its effect and moves the reader. -/
theorem step_idle {r r' : Reader} {lexeme : Lexeme} (hidle : r.prelude = none)
    (h : r.stepIdle lexeme (r.spot.advance lexeme.text).mark = .ok r') :
    r.step lexeme = .ok { r' with spot := r.spot.advance lexeme.text } := by
  simp only [step, hidle, h]
  rfl

/-- Inside a prelude a lexeme has its effect and moves the reader. -/
theorem step_prelude {r r' : Reader} {p : Prelude} {lexeme : Lexeme} (hp : r.prelude = some p)
    (h : r.stepPrelude p lexeme (r.spot.advance lexeme.text).mark = .ok r') :
    r.step lexeme = .ok { r' with spot := r.spot.advance lexeme.text } := by
  simp only [step, hp, h]
  rfl

/-! ## Line comments that wait -/

/-- Placing comments moves those that start before an offset to the nodes. -/
theorem flush_eq (r : Reader) (offset : Nat) :
    r.flush offset = { r with
      nodes := ((r.waiting.takeWhile (·.span.start < offset)).map Node.comment).reverse ++ r.nodes
      waiting := r.waiting.dropWhile (·.span.start < offset) } := by
  have hdrop (p : Comment → Bool) (cs : List Comment) :
      cs.drop (cs.takeWhile p).length = cs.dropWhile p := by
    induction cs with
    | nil => rfl
    | cons c cs ih => by_cases hc : p c = true <;> simp [hc, ih]
  simp only [flush, hdrop]

/-- Comments placed up to an offset are placed up to every later offset. -/
theorem flush_flush (r : Reader) {first last : Nat} (h : first ≤ last) :
    (r.flush first).flush last = r.flush last := by
  have hsplit (cs : List Comment) :
      cs.takeWhile (·.span.start < first) ++
          (cs.dropWhile (·.span.start < first)).takeWhile (·.span.start < last) =
        cs.takeWhile (·.span.start < last) ∧
      (cs.dropWhile (·.span.start < first)).dropWhile (·.span.start < last) =
        cs.dropWhile (·.span.start < last) := by
    induction cs with
    | nil => simp
    | cons c cs ih =>
      by_cases hc : c.span.start < first
      · have hlast : c.span.start < last := by omega
        simpa [hc, hlast] using ih
      · simp [hc]
  obtain ⟨htake, hdrop⟩ := hsplit r.waiting
  simp only [flush_eq, hdrop]
  rw [← htake]
  simp

/-- Comments that start at or after an offset keep waiting. -/
theorem flush_eq_self {r : Reader} {offset : Nat}
    (h : ∀ c ∈ r.waiting, offset ≤ c.span.start) : r.flush offset = r := by
  have hnone : r.waiting.takeWhile (·.span.start < offset) = [] := by
    cases hw : r.waiting with
    | nil => rfl
    | cons c cs =>
      have hle := h c (by simp [hw])
      simp [Nat.not_lt.2 hle]
  simp [flush, hnone]

/-- A comment that starts before an offset is placed, those behind the offset keep waiting. -/
theorem flush_cons {r : Reader} {offset : Nat} {comment : Comment} {later : List Comment}
    (hwaiting : r.waiting = comment :: later) (hcomment : comment.span.start < offset)
    (hlater : ∀ c ∈ later, offset ≤ c.span.start) :
    r.flush offset = { r with nodes := .comment comment :: r.nodes, waiting := later } := by
  have hnone : later.takeWhile (·.span.start < offset) = [] := by
    cases later with
    | nil => rfl
    | cons c cs =>
      have hle := hlater c (by simp)
      simp [Nat.not_lt.2 hle]
  simp [flush, hwaiting, hcomment, hnone]

/-- The reader with all comments placed that start before it. -/
def settled (r : Reader) : Reader := r.flush r.spot.mark.offset

/-! ## Between nodes -/

/-- A whole run of blanks between nodes only moves the reader. -/
theorem read_spacing_run {r : Reader} (hidle : r.prelude = none) {b t : Text}
    (hb : ∀ c ∈ b, isSpacing c = true) (ht : ∀ c ∈ t.head?, isSpacing c = false) :
    r.read (b ++ t) = (r.moved b).read t := by
  cases b with
  | nil => rfl
  | cons c b =>
    have hc : isSpacing c = true := hb c (by simp)
    have htake : (c :: (b ++ t)).takeWhile isSpacing = c :: b := by
      rw [← List.cons_append, List.takeWhile_append_of_pos hb]
      have hnil : t.takeWhile isSpacing = [] := by
        cases t with
        | nil => rfl
        | cons d t => simp [ht d (by simp)]
      rw [hnil, List.append_nil]
    have hfront := front_spacing hc (b ++ t)
    rw [htake] at hfront
    exact read_append hfront (by simp) (step_idle hidle rfl)

/-- Blanks between nodes only move the reader, also where further blanks follow. -/
theorem read_spacing {r : Reader} (hidle : r.prelude = none) {b : Text}
    (hb : ∀ c ∈ b, isSpacing c = true) (t : Text) : r.read (b ++ t) = (r.moved b).read t := by
  have hrest : ∀ c ∈ (t.dropWhile isSpacing).head?, isSpacing c = false := by
    intro c hc
    have h := List.head?_dropWhile_not isSpacing t
    rw [Option.mem_def.1 hc] at h
    simpa using h
  have htake : ∀ c ∈ t.takeWhile isSpacing, isSpacing c = true := fun c hc =>
    List.mem_takeWhile_imp hc
  have hall : ∀ c ∈ b ++ t.takeWhile isSpacing, isSpacing c = true := by
    intro c hc
    rcases List.mem_append.1 hc with hc | hc
    · exact hb c hc
    · exact htake c hc
  rw [← List.takeWhile_append_dropWhile (p := isSpacing) (l := t), ← List.append_assoc,
    read_spacing_run hidle hall hrest,
    read_spacing_run (r := r.moved b) hidle htake hrest, moved_moved]

/-- A block comment between nodes becomes a node. -/
theorem read_comment {r : Reader} (hidle : r.prelude = none) {text : Text}
    (h : mentions text "*/".toList = false) (t : Text) :
    ∃ span, r.read ('/' :: '*' :: (text ++ '*' :: '/' :: t)) =
      (((r.flush r.spot.mark.offset).push (.comment ⟨.block, text, span⟩)).moved
        ('/' :: '*' :: (text ++ ['*', '/']))).read t := by
  have hfront := front_comment h t
  have hsplit : '*' :: (text ++ '*' :: '/' :: t) = '*' :: (text ++ ['*', '/']) ++ t := by simp
  rw [hsplit] at hfront ⊢
  exact ⟨_, read_append hfront (by simp) (step_idle hidle rfl)⟩

/-- An at word between nodes starts a prelude without text. -/
theorem read_atWord {r : Reader} (hidle : r.prelude = none) {c : Char} {name : Text}
    (hc : c.isAlpha = true) (h : name.all isNameChar = true) (t : Text) :
    r.read ('@' :: (c :: name ++ ' ' :: t)) =
      ({ (r.flush r.spot.mark.offset) with
        prelude := some ⟨.atWord (c :: name), r.spot.mark, [], [], [], false⟩ }.moved
          ('@' :: c :: name)).read (' ' :: t) := by
  exact read_append (front_atWord hc h t) (by simp) (step_idle hidle rfl)

/-- A closing brace between nodes closes the innermost block. -/
theorem read_closing {r : Reader} (hidle : r.prelude = none) {f : Frame} {outer : List Frame}
    (hframes : r.frames = f :: outer) (t : Text) :
    r.read ('}' :: t) = ((r.closeBlock f outer r.spot.mark (r.spot.next '}').mark).moved
      ['}']).read t := by
  have hfront : Token.front '}' ([] ++ t) = (.closing .curly, 1) := rfl
  have hstep : r.stepIdle ⟨.closing .curly, ['}']⟩ (r.spot.next '}').mark =
      .ok (r.closeBlock f outer r.spot.mark (r.spot.next '}').mark) := by
    simp only [stepIdle, hframes]
  exact read_append hfront rfl (step_idle hidle hstep)

end Reader

/-! ## Inside a prelude -/

/-- A prelude that has taken the text `t` and has no group behind it. A prelude after a number
sign ends with that sign. -/
structure Prelude.Holds (p : Prelude) (head : Head) (start : Mark) (t : Text) : Prop where
  head_eq : p.head = head
  start_eq : p.start = start
  text_eq : p.text = t
  passed_eq : p.passed = []
  pending_eq : p.pending = []
  sharp : p.afterSharp = true → t.getLast? = some '#'

/-- A lexeme that opens no group; the only sharp one is the number sign. -/
structure Lexeme.Quiet (lexeme : Lexeme) : Prop where
  token_quiet : lexeme.token.Quiet
  sharp : lexeme.token = .sharp → lexeme.text = ['#']

/-- A quiet token opens no group. -/
theorem Token.Quiet.opened?_eq {token : Token} (h : token.Quiet) : token.opened? = none := by
  rcases h with rfl | rfl | rfl <;> rfl

/-- A quiet lexeme is taken at the end of what a prelude holds. -/
theorem Prelude.Holds.take {p : Prelude} {head : Head} {start : Mark} {t : Text}
    {lexeme : Lexeme} (h : p.Holds head start t) (hquiet : lexeme.Quiet) :
    (p.take lexeme).Holds head start (t ++ lexeme.text) where
  head_eq := h.head_eq
  start_eq := h.start_eq
  text_eq := by
    rw [← h.text_eq]
    simp [Prelude.text, Prelude.take, h.passed_eq]
  passed_eq := rfl
  pending_eq := by simp [Prelude.take, hquiet.token_quiet.opened?_eq]
  sharp := by
    intro hsharp
    have htoken : lexeme.token = .sharp := by simpa [Prelude.take] using hsharp
    simp [hquiet.sharp htoken]

/-- A prelude that begins with a quiet lexeme holds its text. -/
theorem Prelude.holds_begin {start : Mark} {lexeme : Lexeme} (hquiet : lexeme.Quiet) :
    (Prelude.begin start lexeme).Holds .other start lexeme.text where
  head_eq := rfl
  start_eq := rfl
  text_eq := by simp [Prelude.text, Prelude.begin]
  passed_eq := rfl
  pending_eq := by simp [Prelude.begin, hquiet.token_quiet.opened?_eq]
  sharp := by
    intro hsharp
    have htoken : lexeme.token = .sharp := by simpa [Prelude.begin] using hsharp
    simp [hquiet.sharp htoken]

/-- The first lexeme of a safe run: what it covers, and what it leaves of the run. -/
theorem exists_front_safe {c d : Char} {s : Text} (hc : isSafeChar c = true) (hs : SafeRun s)
    (hd : EndsPrelude d) (t : Text) :
    ∃ token n u v, s = u ++ v ∧ Token.front c (u ++ (v ++ d :: t)) = (token, n) ∧
      n - 1 = u.length ∧ Lexeme.Quiet ⟨token, c :: u⟩ ∧
      (token = .blank → isSpacing c = true) := by
  have hfront := front_safe hc hs hd t
  refine ⟨(Token.front c (s ++ d :: t)).1, (Token.front c (s ++ d :: t)).2,
    s.take ((Token.front c (s ++ d :: t)).2 - 1), s.drop ((Token.front c (s ++ d :: t)).2 - 1),
    (List.take_append_drop _ _).symm, ?_, ?_, ⟨hfront.quiet, ?_⟩, hfront.blank⟩
  · rw [← List.append_assoc, List.take_append_drop]
  · rw [List.length_take, Nat.min_eq_left hfront.length_le]
  · intro hsharp
    obtain ⟨rfl, hone⟩ := hfront.sharp hsharp
    simp [hone]

namespace Reader

/-- A quiet lexeme inside a prelude is taken, and has no other effect. -/
theorem step_prelude_quiet {r : Reader} {p : Prelude} {lexeme : Lexeme}
    (hp : r.prelude = some p) (hpending : p.pending = []) (hquiet : lexeme.Quiet) :
    r.step lexeme = .ok ({ r with prelude := some (p.take lexeme) }.moved lexeme.text) := by
  have hstep : r.stepPrelude p lexeme (r.spot.advance lexeme.text).mark =
      .ok { r with prelude := some (p.take lexeme) } := by
    obtain ⟨token, text⟩ := lexeme
    have htoken : token.Quiet := hquiet.token_quiet
    rcases htoken with rfl | rfl | rfl <;> simp [stepPrelude, hpending]
  exact step_prelude hp hstep

/-- A safe run inside a prelude is taken into it, up to the character that ends the prelude. -/
theorem read_safe_run {r : Reader} {p : Prelude} {head : Head} {start : Mark} {taken s : Text}
    {d : Char} (hp : r.prelude = some p) (h : p.Holds head start taken) (hs : SafeRun s)
    (hd : EndsPrelude d) (t : Text) :
    ∃ p', Prelude.Holds p' head start (taken ++ s) ∧
      r.read (s ++ d :: t) = ({ r with prelude := some p' }.moved s).read (d :: t) := by
  -- the induction is on the run, which a lexeme shortens by its whole length
  induction hn : s.length using Nat.strong_induction_on generalizing r p taken s with
  | _ n ih =>
    cases s with
    | nil =>
      refine ⟨p, by simpa using h, ?_⟩
      have hr : { r with prelude := some p } = r := by rw [← hp]
      rw [hr]
      rfl
    | cons c s =>
      obtain ⟨token, m, u, v, rfl, hfront, hm, hquiet, -⟩ :=
        exists_front_safe (hs c (by simp)) hs.tail hd t
      have hv : SafeRun v := fun x hx => hs x (by simp [hx])
      have hstep := step_prelude_quiet hp h.pending_eq hquiet
      obtain ⟨p', hp', hread⟩ := ih v.length (by rw [← hn, List.length_cons, List.length_append]; omega)
        (r := { r with prelude := some (p.take ⟨token, c :: u⟩) }.moved (c :: u))
        rfl (h.take hquiet) hv rfl
      refine ⟨p', by simpa using hp', ?_⟩
      rw [List.cons_append, List.append_assoc, read_append hfront hm hstep, hread]
      congr 1
      simp [moved, Spot.advance]

/-- A safe run between nodes that starts with no blank starts a prelude of its own. -/
theorem read_safe_start {r : Reader} (hidle : r.prelude = none) {c d : Char} {s : Text}
    (hc : isSpacing c = false) (hs : SafeRun (c :: s)) (hd : EndsPrelude d) (t : Text) :
    ∃ p, Prelude.Holds p .other r.spot.mark (c :: s) ∧
      r.read (c :: s ++ d :: t) =
        ({ (r.flush r.spot.mark.offset) with prelude := some p }.moved (c :: s)).read
          (d :: t) := by
  obtain ⟨token, m, u, v, rfl, hfront, hm, hquiet, hblank⟩ :=
    exists_front_safe (hs c (by simp)) hs.tail hd t
  have hv : SafeRun v := fun x hx => hs x (by simp [hx])
  have hstep : r.step ⟨token, c :: u⟩ = .ok ({ (r.flush r.spot.mark.offset) with
      prelude := some (Prelude.begin r.spot.mark ⟨token, c :: u⟩) }.moved (c :: u)) := by
    have htoken : token.Quiet := hquiet.token_quiet
    rcases htoken with rfl | rfl | rfl
    · rw [hblank rfl] at hc
      cases hc
    · exact step_idle hidle rfl
    · exact step_idle hidle rfl
  obtain ⟨p, hp, hread⟩ := read_safe_run (t := t) (d := d)
    (r := { (r.flush r.spot.mark.offset) with
      prelude := some (Prelude.begin r.spot.mark ⟨token, c :: u⟩) }.moved (c :: u))
    rfl (Prelude.holds_begin hquiet) hv hd
  refine ⟨p, by simpa using hp, ?_⟩
  rw [List.cons_append, List.append_assoc, read_append hfront hm hstep, hread]
  congr 1
  simp [moved, Spot.advance]

/-- A semicolon ends a prelude as a statement. -/
theorem read_semicolon {r : Reader} {p : Prelude} (hp : r.prelude = some p)
    (hpending : p.pending = []) (t : Text) :
    r.read (';' :: t) = ((r.endStatement p (r.spot.next ';').mark).moved [';']).read t := by
  have hfront : Token.front ';' ([] ++ t) = (.semicolon, 1) := rfl
  have hstep : r.stepPrelude p ⟨.semicolon, [';']⟩ (r.spot.next ';').mark =
      .ok (r.endStatement p (r.spot.next ';').mark) := by
    simp [stepPrelude, hpending]
  exact read_append hfront rfl (step_prelude hp hstep)

/-- An opening brace that does not follow a number sign ends a prelude and opens a block. -/
theorem read_opening {r : Reader} {p : Prelude} (hp : r.prelude = some p)
    (hpending : p.pending = []) (hsharp : p.afterSharp = false) (t : Text) :
    r.read ('{' :: t) = ((r.openBlock p).moved ['{']).read t := by
  have hfront : Token.front '{' ([] ++ t) = (.opening .curly, 1) := rfl
  have hstep : r.stepPrelude p ⟨.opening .curly, ['{']⟩ (r.spot.next '{').mark =
      .ok (r.openBlock p) := by
    simp [stepPrelude, hpending, hsharp]
  exact read_append hfront rfl (step_prelude hp hstep)

end Reader

end ClassHints.Sheet
