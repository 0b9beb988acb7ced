/-
A buffer of tokens is a cursor over the list of all tokens. `Lookahead.stream` is that list, taken,
ready and to come, and `Lookahead.index` is where the cursor stands; `moved` says what one move does
to them and `answers_start` what is seen of a run: reading ahead never shows, and a lexical failure
shows once, at the first move that needs a token past the last one.
-/
import ScopedCss.Proofs.Token.Reading
import ScopedCss.Token.Lookahead

namespace ScopedCss

namespace Lexer

/-- A lexer that has failed yields nothing more. -/
theorem tokens_after_failure {l l' : Lexer} {e : Error} (h : l.next = (.failure e, l')) :
    l'.tokens = ⟨[], none⟩ := by
  have hfailed : l'.failed = true := by
    simp only [next] at h
    split at h
    · cases h
    · split at h
      · cases h
      · split at h <;> cases h
        rfl
  have hnext : l'.next = (.finished, l') := by rw [next, if_pos hfailed]
  exact tokens_of_next_finished hnext

end Lexer

namespace Lookahead

/-- The tokens read so far: those taken, then those ready. -/
def known (b : Lookahead) : List Token := b.taken.reverse ++ b.ready

/-- All the tokens of a buffer, those to come too, and the failure that is still ahead. -/
def stream (b : Lookahead) : TokenStream :=
  if b.exhausted then ⟨b.known, none⟩
  else ⟨b.known ++ b.lexer.tokens.tokens, b.lexer.tokens.failure⟩

/-- How many tokens stand before the next one. -/
def index (b : Lookahead) : Nat := b.taken.length

theorem stream_start (source : Text) : (start source).stream = source.tokenize := rfl

theorem index_start (source : Text) : (start source).index = 0 := rfl

theorem stream_congr {b c : Lookahead} (hlexer : c.lexer = b.lexer)
    (hexhausted : c.exhausted = b.exhausted) (hknown : c.known = b.known) :
    c.stream = b.stream := by
  rw [stream, stream, hlexer, hexhausted, hknown]

theorem known_isPrefix (b : Lookahead) : b.known <+: b.stream.tokens := by
  unfold stream
  split
  · exact List.prefix_rfl
  · exact List.prefix_append ..

@[simp] theorem length_known (b : Lookahead) : b.known.length = b.index + b.ready.length := by
  simp [known, index]

theorem getElem?_known (b : Lookahead) (n : Nat) : b.known[b.index + n]? = b.ready[n]? := by
  rw [known, List.getElem?_append_right (by simp [index])]
  simp [index]

theorem getElem?_stream {b : Lookahead} {n : Nat} (h : n < b.ready.length) :
    b.stream.tokens[b.index + n]? = b.ready[n]? := by
  obtain ⟨rest, hrest⟩ := b.known_isPrefix
  rw [← hrest, List.getElem?_append_left (by simpa using h), getElem?_known]

/-- What reading ahead for `n` more tokens can come to. -/
inductive Filled (b : Lookahead) (n : Nat) : Except Error Unit × Lookahead → Prop
  | ready {b' : Lookahead} (taken : b'.taken = b.taken) (stream : b'.stream = b.stream)
      (enough : b.ready.length + n ≤ b'.ready.length) : Filled b n (.ok (), b')
  | ended {b' : Lookahead} (taken : b'.taken = b.taken) (stream : b'.stream = b.stream)
      (all : b'.stream = ⟨b'.known, none⟩) : Filled b n (.ok (), b')
  | failed {b' : Lookahead} {e : Error} (taken : b'.taken = b.taken)
      (before : b.stream = ⟨b'.known, some e⟩) (after : b'.stream = ⟨b'.known, none⟩)
      (kept : b.ready.length ≤ b'.ready.length)
      (short : b'.ready.length < b.ready.length + n) : Filled b n (.error e, b')

/-- A token more that is ready is one less to read. -/
theorem Filled.of_token {b c : Lookahead} {n : Nat} {r : Except Error Unit × Lookahead}
    (h : Filled c n r) (htaken : c.taken = b.taken) (hstream : c.stream = b.stream)
    (hready : c.ready.length = b.ready.length + 1) : Filled b (n + 1) r := by
  cases h with
  | ready taken same enough =>
    exact .ready (taken.trans htaken) (same.trans hstream) (by omega)
  | ended taken same all => exact .ended (taken.trans htaken) (same.trans hstream) all
  | failed taken before after kept short =>
    exact .failed (taken.trans htaken) (hstream.symm.trans before) after (by omega) (by omega)

/-- Reading ahead loses nothing: what is taken stays, and all tokens together stay the same. -/
theorem filled (b : Lookahead) (n : Nat) : Filled b n (b.fill n) := by
  induction n generalizing b with
  | zero => exact .ready rfl rfl (Nat.le_refl _)
  | succ n ih =>
    by_cases hexhausted : b.exhausted = true
    · rw [fill, if_pos hexhausted]
      exact .ended rfl rfl (by simp [stream, hexhausted])
    · rw [fill, if_neg hexhausted]
      rcases hnext : b.lexer.next with ⟨t | e | _, lexer⟩
      · -- the token passes from those to come to those that are known
        refine (ih _).of_token rfl ?_ List.length_append
        simp [stream, hexhausted, known, Lexer.tokens_of_next_token hnext]
      · refine .failed rfl ?_ ?_ (Nat.le_refl _) (Nat.lt_add_of_pos_right (Nat.succ_pos n))
        · simp [stream, hexhausted, known, Lexer.tokens_of_next_failure hnext]
        · simp [stream, hexhausted, known, Lexer.tokens_after_failure hnext]
      · refine .ended rfl ?_ ?_
        · simp [stream, hexhausted, known, Lexer.tokens_of_next_finished hnext]
        · simp [stream]

/-- One use of a buffer: a look `n` places ahead, taking the next token, or giving back the last `n`
taken, or all if there are fewer. -/
inductive Move where
  | peek (n : Nat)
  | next
  | back (n : Nat)

/-- Makes a move; giving tokens back answers nothing. -/
def move (b : Lookahead) : Move → Except Error (Option Token) × Lookahead
  | .peek n => b.peek n
  | .next => b.next
  | .back n => (.ok none, b.back n)

/-- What is answered to moves, one after the other. -/
def answers (b : Lookahead) : List Move → List (Except Error (Option Token))
  | [] => []
  | m :: ms => (b.move m).1 :: (b.move m).2.answers ms

namespace Move

/-- How many tokens there must be for a move at `i` to find the one that it is about. -/
def reach (i : Nat) : Move → Nat
  | peek n => i + n + 1
  | next => i + 1
  | back _ => 0

/-- What a move at `i` shows of a list of tokens. -/
def answer (ts : List Token) (i : Nat) : Move → Option Token
  | peek n => ts[i + n]?
  | next => ts[i]?
  | back _ => none

/-- Where a move at `i` leads in a list of tokens. -/
def target (ts : List Token) (i : Nat) : Move → Nat
  | peek _ => i
  | next => if i < ts.length then i + 1 else i
  | back n => i - n

/-- What moves from `i` on show of a list of tokens. -/
def answers (ts : List Token) (i : Nat) : List Move → List (Option Token)
  | [] => []
  | m :: ms => m.answer ts i :: answers ts (m.target ts i) ms

/-- Where moves from `i` on lead. -/
def arrival (ts : List Token) (i : Nat) (ms : List Move) : Nat :=
  ms.foldl (fun i m => m.target ts i) i

/-- Whether no move needs a token past the last one. -/
def Within (ts : List Token) (i : Nat) : List Move → Prop
  | [] => True
  | m :: ms => m.reach i ≤ ts.length ∧ Within ts (m.target ts i) ms

end Move

/-- What a move can come to: the answer of the cursor, or the failure, which is then gone. -/
inductive Moved (b : Lookahead) (m : Move) : Except Error (Option Token) × Lookahead → Prop
  | answered {b' : Lookahead}
      (found : b.stream.failure = none ∨ m.reach b.index ≤ b.stream.tokens.length)
      (stream : b'.stream = b.stream) (index : b'.index = m.target b.stream.tokens b.index) :
      Moved b m (.ok (m.answer b.stream.tokens b.index), b')
  | failed {b' : Lookahead} {e : Error} (failure : b.stream.failure = some e)
      (missing : b.stream.tokens.length < m.reach b.index)
      (stream : b'.stream = ⟨b.stream.tokens, none⟩) (index : b'.index = b.index) :
      Moved b m (.error e, b')

theorem index_of_taken {b b' : Lookahead} (h : b'.taken = b.taken) : b'.index = b.index :=
  congrArg List.length h

theorem moved_peek (b : Lookahead) (n : Nat) : Moved b (.peek n) (b.peek n) := by
  have hfill := b.filled (n + 1 - b.ready.length)
  rw [peek]
  generalize b.fill (n + 1 - b.ready.length) = r at hfill ⊢
  cases hfill with
  | @ready b' taken same enough =>
    have hindex := index_of_taken taken
    have hn : n < b'.ready.length := by omega
    have hanswer : b'.ready[n]? = b.stream.tokens[b.index + n]? := by
      rw [← same, ← hindex, getElem?_stream hn]
    have hlength := b'.known_isPrefix.length_le
    rw [length_known, same, hindex] at hlength
    change Moved b (.peek n) (.ok b'.ready[n]?, b')
    rw [hanswer]
    exact .answered (.inr (show b.index + n + 1 ≤ _ by omega)) same hindex
  | @ended b' taken same all =>
    have hindex := index_of_taken taken
    have hstream := same.symm.trans all
    have hanswer : b'.ready[n]? = b.stream.tokens[b.index + n]? := by
      rw [hstream, ← hindex, getElem?_known]
    change Moved b (.peek n) (.ok b'.ready[n]?, b')
    rw [hanswer]
    exact .answered (.inl (by rw [hstream])) same hindex
  | @failed b' e taken before after kept short =>
    have hindex := index_of_taken taken
    refine .failed (by rw [before]) ?_ (by rw [after, before]) hindex
    rw [before, length_known, hindex]
    change _ < b.index + n + 1
    omega

theorem ready_of_peek {b b' : Lookahead} {n : Nat} {t : Option Token}
    (h : b.peek n = (.ok t, b')) : b'.ready[n]? = t := by
  rw [peek] at h
  rcases hfill : b.fill (n + 1 - b.ready.length) with ⟨_ | _, c⟩ <;> rw [hfill] at h <;> cases h
  rfl

/-- The buffer with the token in front taken. -/
def take (b : Lookahead) (t : Token) : Lookahead :=
  { b with ready := b.ready.drop 1, taken := t :: b.taken }

theorem next_of_peek {b b' : Lookahead} {t : Option Token} (h : b.peek 0 = (.ok t, b')) :
    b.next = (.ok t, t.elim b' b'.take) := by
  rw [next, h]
  cases t <;> rfl

theorem stream_take {b : Lookahead} {t : Token} (h : b.ready[0]? = some t) :
    (b.take t).stream = b.stream := by
  refine stream_congr rfl rfl ?_
  cases hready : b.ready with
  | nil => simp [hready] at h
  | cons u ready =>
    obtain rfl : u = t := by simpa [hready] using h
    simp [known, take, hready]

theorem moved_next (b : Lookahead) : Moved b .next b.next := by
  have hpeek := b.moved_peek 0
  rcases hb : b.peek 0 with ⟨r, b'⟩
  rw [hb] at hpeek
  cases hpeek with
  | failed failure missing same index =>
    rw [next, hb]
    exact .failed failure missing same index
  | answered found same index =>
    have hready : b'.ready[0]? = b.stream.tokens[b.index]? := ready_of_peek hb
    have hafter : (b.stream.tokens[b.index]?.elim b' b'.take).stream = b.stream ∧
        (b.stream.tokens[b.index]?.elim b' b'.take).index =
          Move.next.target b.stream.tokens b.index := by
      cases hnext : b.stream.tokens[b.index]? with
      | none =>
        have hend := Nat.not_lt.2 (List.getElem?_eq_none_iff.1 hnext)
        exact ⟨same, index.trans (if_neg hend).symm⟩
      | some t =>
        have hlt := (List.getElem?_eq_some_iff.1 hnext).1
        exact ⟨(stream_take (hready.trans hnext)).trans same,
          (congrArg Nat.succ index).trans (if_pos hlt).symm⟩
    rw [next_of_peek hb]
    exact .answered found hafter.1 hafter.2

theorem moved_back (b : Lookahead) (n : Nat) : Moved b (.back n) (.ok none, b.back n) := by
  have hknown : (b.back n).known = b.known := by
    simp only [known, back]
    rw [← List.append_assoc, ← List.reverse_append, List.take_append_drop]
  exact .answered (.inr (Nat.zero_le _)) (stream_congr rfl rfl hknown) List.length_drop

theorem moved (b : Lookahead) (m : Move) : Moved b m (b.move m) := by
  cases m with
  | peek n => exact b.moved_peek n
  | next => exact b.moved_next
  | back n => exact b.moved_back n

section

variable {b : Lookahead} {m : Move}

theorem move_of_found
    (h : b.stream.failure = none ∨ m.reach b.index ≤ b.stream.tokens.length) :
    ∃ b', b.move m = (.ok (m.answer b.stream.tokens b.index), b') ∧ b'.stream = b.stream ∧
      b'.index = m.target b.stream.tokens b.index := by
  have hmoved := b.moved m
  generalize b.move m = r at hmoved ⊢
  cases hmoved with
  | answered found same index => exact ⟨_, rfl, same, index⟩
  | failed failure missing same index =>
    rw [failure] at h
    exact absurd (h.resolve_left (Option.some_ne_none _)) (Nat.not_le.2 missing)

theorem move_of_missing {e : Error} (hfailure : b.stream.failure = some e)
    (hmissing : b.stream.tokens.length < m.reach b.index) :
    ∃ b', b.move m = (.error e, b') ∧ b'.stream = ⟨b.stream.tokens, none⟩ ∧
      b'.index = b.index := by
  have hmoved := b.moved m
  generalize b.move m = r at hmoved ⊢
  cases hmoved with
  | answered found same index =>
    rw [hfailure] at found
    exact absurd (found.resolve_left (Option.some_ne_none _)) (Nat.not_le.2 hmissing)
  | failed failure missing same index =>
    obtain rfl := Option.some.inj (hfailure.symm.trans failure)
    exact ⟨_, rfl, same, index⟩

end

/-- The buffer after moves. -/
def after (b : Lookahead) (ms : List Move) : Lookahead := ms.foldl (fun b m => (b.move m).2) b

theorem answers_cons {b b' : Lookahead} {m : Move} {r : Except Error (Option Token)}
    (h : b.move m = (r, b')) (ms : List Move) : b.answers (m :: ms) = r :: b'.answers ms := by
  rw [answers, h]

theorem after_cons {b b' : Lookahead} {m : Move} {r : Except Error (Option Token)}
    (h : b.move m = (r, b')) (ms : List Move) : b.after (m :: ms) = b'.after ms := by
  rw [after, List.foldl_cons, h, after]

theorem answers_append (b : Lookahead) (ms ms' : List Move) :
    b.answers (ms ++ ms') = b.answers ms ++ (b.after ms).answers ms' := by
  induction ms generalizing b with
  | nil => rfl
  | cons m ms ih => exact congrArg ((b.move m).1 :: ·) (ih _)

/-- As long as no failure shows, a run is one of the cursor over all tokens. -/
theorem answers_of_within {b : Lookahead} {ms : List Move}
    (h : b.stream.failure = none ∨ Move.Within b.stream.tokens b.index ms) :
    b.answers ms = (Move.answers b.stream.tokens b.index ms).map .ok ∧
      (b.after ms).stream = b.stream ∧
      (b.after ms).index = Move.arrival b.stream.tokens b.index ms := by
  induction ms generalizing b with
  | nil => exact ⟨rfl, rfl, rfl⟩
  | cons m ms ih =>
    obtain ⟨b', hb, hstream, hindex⟩ := move_of_found (h.imp_right And.left)
    have hrest := ih (b := b') (by rw [hstream, hindex]; exact h.imp_right And.right)
    rw [hstream, hindex] at hrest
    rw [answers_cons hb, after_cons hb, hrest.1]
    exact ⟨rfl, hrest.2⟩

theorem Move.within_or_split (ts : List Token) (i : Nat) (ms : List Move) :
    Within ts i ms ∨ ∃ before m after, ms = before ++ m :: after ∧ Within ts i before ∧
      ts.length < m.reach (arrival ts i before) := by
  induction ms generalizing i with
  | nil => exact .inl trivial
  | cons m ms ih =>
    by_cases hm : m.reach i ≤ ts.length
    · rcases ih (m.target ts i) with hwithin | ⟨before, m', after, rfl, hbefore, hmissing⟩
      · exact .inl ⟨hm, hwithin⟩
      · exact .inr ⟨m :: before, m', after, rfl, ⟨hm, hbefore⟩, hmissing⟩
    · exact .inr ⟨[], m, ms, rfl, trivial, Nat.not_le.1 hm⟩

/-- The first move that needs a token past the last one shows the failure and stays where it is; the
moves after it are those of a cursor over the tokens that there are. -/
theorem answers_of_missing {b : Lookahead} {before after : List Move} {m : Move} {e : Error}
    (hfailure : b.stream.failure = some e)
    (hwithin : Move.Within b.stream.tokens b.index before)
    (hmissing : b.stream.tokens.length < m.reach (Move.arrival b.stream.tokens b.index before)) :
    b.answers (before ++ m :: after) = (Move.answers b.stream.tokens b.index before).map .ok ++
      .error e :: (Move.answers b.stream.tokens (Move.arrival b.stream.tokens b.index before)
        after).map .ok := by
  obtain ⟨hanswers, hstream, hindex⟩ := answers_of_within (.inr hwithin)
  rw [← hindex, ← hstream] at hmissing
  obtain ⟨c, hc, hleft, hstays⟩ := move_of_missing (hstream ▸ hfailure) hmissing
  -- the failure is gone, so nothing can show but the tokens that there are
  have hrest : c.answers after = (Move.answers c.stream.tokens c.index after).map .ok :=
    (answers_of_within (.inl (by rw [hleft]))).1
  rw [hleft, hstays, hstream, hindex] at hrest
  rw [answers_append, hanswers, answers_cons hc, hrest]

/-- A run of a buffer is a run of a cursor over the tokens of the source. If those are cut short by
a failure, it shows at the first move that needs a token past the last one, and never again. -/
theorem answers_start (source : Text) (ms : List Move) :
    let ts := source.tokenize.tokens
    ((source.tokenize.failure = none ∨ Move.Within ts 0 ms) ∧
      (start source).answers ms = (Move.answers ts 0 ms).map .ok) ∨
    ∃ e before m after, source.tokenize.failure = some e ∧ ms = before ++ m :: after ∧
      Move.Within ts 0 before ∧ ts.length < m.reach (Move.arrival ts 0 before) ∧
      (start source).answers ms = (Move.answers ts 0 before).map .ok ++
        .error e :: (Move.answers ts (Move.arrival ts 0 before) after).map .ok := by
  intro ts
  have hplain := @answers_of_within (start source) ms
  rw [stream_start, index_start] at hplain
  cases hfailure : source.tokenize.failure with
  | none => exact .inl ⟨.inl rfl, (hplain (.inl hfailure)).1⟩
  | some e =>
    rcases Move.within_or_split ts 0 ms with hwithin | ⟨before, m, after, rfl, hbefore, hmissing⟩
    · exact .inl ⟨.inr hwithin, (hplain (.inr hwithin)).1⟩
    · have hcut := @answers_of_missing (start source) before after m e
      rw [stream_start, index_start] at hcut
      exact .inr ⟨e, before, m, after, rfl, rfl, hbefore, hmissing,
        hcut hfailure hbefore hmissing⟩

example : ((start "a \x22b".toList).answers [.peek 1, .next, .next, .back 1, .peek 0]).map
    (·.toOption.map fun t => t.map (·.text)) =
      [none, some (some ['a']), some none, some none, some (some ['a'])] := by
  decide +kernel

end Lookahead

end ScopedCss
