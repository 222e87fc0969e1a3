import Mathlib

/-!
# Hunting for items in a stream

A stream is walked from the front: a candidate that is judged whole is taken, a dead one is
left for the next place where a candidate may start, and a candidate that waits for more ends
the walk.  Whatever the junk in between, the tokens account for every symbol, and an item that
was passed over shares symbols with one that was taken.
-/

namespace OpenServo.Hunt

inductive Verdict where
  | dead
  | waiting
  | whole (size : ℕ)
  deriving DecidableEq, Repr

/-- Where candidates may start, and what is said of one with all the symbols behind it. -/
structure Judge (β : Type*) where
  starts : β → Bool
  verdict : List β → Verdict
  fits : ∀ {stream : List β} {n : ℕ}, verdict stream = .whole n → 0 < n ∧ n ≤ stream.length

inductive Token where
  | skip (size : ℕ)
  | item (size : ℕ)
  deriving DecidableEq, Repr

def Token.size : Token → ℕ
  | skip n | item n => n

variable {β : Type*} (judge : Judge β)

/-- How far it is to the next candidate, the symbol at the front left behind. -/
def gap : List β → ℕ
  | [] => 0
  | _ :: rest => 1 + (rest.takeWhile fun b => !judge.starts b).length

def next : List β → Option Token
  | [] => none
  | b :: rest =>
      if judge.starts b then
        match judge.verdict (b :: rest) with
        | .dead => some (.skip (gap judge (b :: rest)))
        | .waiting => none
        | .whole n => some (.item n)
      else some (.skip (gap judge (b :: rest)))

/-- The walk to where nothing more can be said. -/
inductive Walks : List β → List Token → List β → Prop where
  | stop {stream : List β} (hstop : next judge stream = none) : Walks stream [] stream
  | more {stream rest : List β} {token : Token} {tokens : List Token}
      (hnext : next judge stream = some token)
      (hrest : Walks (stream.drop token.size) tokens rest) : Walks stream (token :: tokens) rest

/-- The offset and size of every item. -/
def items : ℕ → List Token → List (ℕ × ℕ)
  | _, [] => []
  | offset, .skip n :: tokens => items (offset + n) tokens
  | offset, .item n :: tokens => (offset, n) :: items (offset + n) tokens

def taken (tokens : List Token) : ℕ := (tokens.map Token.size).sum

variable {judge} {stream rest : List β} {token : Token} {tokens : List Token}

theorem gap_bounds {b : β} {rest : List β} :
    0 < gap judge (b :: rest) ∧ gap judge (b :: rest) ≤ (b :: rest).length := by
  have hle := (@List.takeWhile_sublist _ rest fun b => !judge.starts b).length_le
  rw [gap, List.length_cons]
  omega

/-- What the front of a stream can be. -/
theorem next_cases {b : β} {rest : List β} (h : next judge (b :: rest) = some token) :
    token = .skip (gap judge (b :: rest)) ∧
        (judge.starts b = true → judge.verdict (b :: rest) = .dead) ∨
      ∃ n, token = .item n ∧ judge.starts b = true ∧ judge.verdict (b :: rest) = .whole n := by
  rw [next] at h
  split at h
  · rename_i hstarts
    cases hverdict : judge.verdict (b :: rest) with
    | dead =>
        rw [hverdict] at h
        exact .inl ⟨(Option.some.inj h).symm, fun _ => rfl⟩
    | waiting =>
        rw [hverdict] at h
        cases h
    | whole n =>
        rw [hverdict] at h
        exact .inr ⟨n, (Option.some.inj h).symm, hstarts, rfl⟩
  · rename_i hstarts
    exact .inl ⟨(Option.some.inj h).symm, fun hnot => absurd hnot hstarts⟩

theorem next_eq_item {n : ℕ} :
    next judge stream = some (.item n) ↔
      (∃ b, stream.head? = some b ∧ judge.starts b = true) ∧ judge.verdict stream = .whole n := by
  cases stream with
  | nil => simp [next]
  | cons b rest =>
      constructor
      · intro h
        obtain ⟨hskip, -⟩ | ⟨m, hitem, hstarts, hwhole⟩ := next_cases h
        · cases hskip
        · cases hitem
          exact ⟨⟨b, rfl, hstarts⟩, hwhole⟩
      · rintro ⟨⟨b', hhead, hstarts⟩, hwhole⟩
        obtain rfl : b = b' := Option.some.inj hhead
        simp only [next, hstarts, if_true, hwhole]

theorem next_size (h : next judge stream = some token) :
    0 < token.size ∧ token.size ≤ stream.length := by
  cases stream with
  | nil => cases h
  | cons b rest =>
      obtain ⟨rfl, -⟩ | ⟨n, rfl, -, hwhole⟩ := next_cases h
      · exact gap_bounds
      · exact judge.fits hwhole

/-- The walk comes to an end. -/
theorem exists_walks (judge : Judge β) (stream : List β) :
    ∃ tokens rest, Walks judge stream tokens rest := by
  induction hlen : stream.length using Nat.strong_induction_on generalizing stream with
  | _ n ih =>
      cases hnext : next judge stream with
      | none => exact ⟨[], stream, .stop hnext⟩
      | some token =>
          obtain ⟨hpos, hle⟩ := next_size hnext
          obtain ⟨tokens, rest, hrest⟩ :=
            ih (stream.drop token.size).length (by rw [List.length_drop]; omega) _ rfl
          exact ⟨token :: tokens, rest, .more hnext hrest⟩

namespace Walks

/-- Every symbol is in a token or left. -/
theorem account (h : Walks judge stream tokens rest) :
    taken tokens + rest.length = stream.length := by
  induction h with
  | stop => exact Nat.zero_add _
  | more hnext _ ih =>
      have hle := (next_size hnext).2
      rw [List.length_drop] at ih
      rw [taken, List.map_cons, List.sum_cons]
      rw [taken] at ih
      omega

theorem length_le (h : Walks judge stream tokens rest) : tokens.length ≤ stream.length := by
  induction h with
  | stop => exact Nat.zero_le _
  | more hnext _ ih =>
      obtain ⟨hpos, hle⟩ := next_size hnext
      rw [List.length_drop] at ih
      rw [List.length_cons]
      omega

end Walks

/-! ## No item is lost -/

/-- Between a dead candidate and the next one no item starts. -/
theorem not_item_of_skip {n p m : ℕ} (h : next judge stream = some (.skip n)) (hp : p < n) :
    next judge (stream.drop p) ≠ some (.item m) := by
  cases stream with
  | nil => cases h
  | cons b rest =>
      cases p with
      | zero => rw [List.drop_zero, h]; exact fun hitem => nomatch hitem
      | succ p =>
          obtain ⟨hgap, -⟩ | ⟨n', hitem, -⟩ := next_cases h
          · rw [Token.skip.inj hgap, gap] at hp
            have hlt : p < (rest.takeWhile fun b => !judge.starts b).length := by omega
            have hle := (@List.takeWhile_sublist _ rest fun b => !judge.starts b).length_le
            have hinside : p < rest.length := hlt.trans_le hle
            have hat : rest[p] = (rest.takeWhile fun b => !judge.starts b)[p] :=
              ((List.takeWhile_prefix _).getElem hlt).symm
            have hnot := List.mem_takeWhile_imp (List.getElem_mem hlt)
            rw [List.drop_succ_cons, List.drop_eq_getElem_cons (by omega)]
            intro hitem
            obtain ⟨hskip, -⟩ | ⟨n', -, hstarts, -⟩ := next_cases hitem
            · cases hskip
            · rw [← hat, hstarts] at hnot
              cases hnot
          · cases hitem

/-- An item inside what was consumed is one that was taken, or overlaps one. -/
theorem Walks.no_loss (h : Walks judge stream tokens rest) {p n : ℕ} (offset : ℕ)
    (hitem : next judge (stream.drop p) = some (.item n)) (hin : p + n ≤ taken tokens) :
    ∃ item ∈ items offset tokens, item.1 < offset + p + n ∧ offset + p < item.1 + item.2 := by
  induction h generalizing p offset with
  | stop =>
      have hpos := (next_size hitem).1
      simp only [taken, List.map_nil, List.sum_nil, Token.size] at hin hpos
      omega
  | @more stream rest token tokens hnext hrest ih =>
      have hpos : 0 < n := (next_size hitem).1
      have hstep : token.size ≤ p → ∃ item ∈ items (offset + token.size) tokens,
          item.1 < offset + p + n ∧ offset + p < item.1 + item.2 := by
        intro hle
        have hoffset : offset + token.size + (p - token.size) = offset + p := by omega
        rw [taken, List.map_cons, List.sum_cons] at hin
        have hfound := ih (p := p - token.size) (offset + token.size)
          (by rwa [List.drop_drop, Nat.add_sub_cancel' hle]) (by rw [taken]; omega)
        rwa [hoffset] at hfound
      cases token with
      | skip k =>
          by_cases hp : p < k
          · exact absurd hitem (not_item_of_skip hnext hp)
          · exact hstep (Nat.le_of_not_lt hp)
      | item k =>
          by_cases hp : p < k
          · exact ⟨(offset, k), List.mem_cons_self, by dsimp only; omega, by dsimp only; omega⟩
          · obtain ⟨item, hmem, hover⟩ := hstep (Nat.le_of_not_lt hp)
            exact ⟨item, List.mem_cons_of_mem _ hmem, hover⟩

/-! ## Where the walk stands -/

/-- A dead front is skipped, up to the next place where a candidate may start. -/
theorem next_of_dead {b : β} {rest : List β}
    (hdead : judge.starts b = true → judge.verdict (b :: rest) = .dead) :
    next judge (b :: rest) = some (.skip (gap judge (b :: rest))) := by
  rw [next]
  split
  · rename_i hstarts
    rw [hdead hstarts]
  · rfl

theorem gap_le {b c : β} {rest : List β} {k : ℕ} (hat : (b :: rest)[k + 1]? = some c)
    (hstarts : judge.starts c = true) : gap judge (b :: rest) ≤ k + 1 := by
  rw [gap, Nat.add_comm]
  apply Nat.succ_le_succ
  by_contra hlong
  have hlt := Nat.lt_of_not_le hlong
  have hfront := List.mem_takeWhile_imp (List.getElem_mem hlt)
  have hsame := (@List.takeWhile_prefix _ rest fun b => !judge.starts b).getElem hlt
  have hc : rest[k]? = some c := hat
  rw [hsame, (List.getElem?_eq_some_iff.mp hc).2, hstarts] at hfront
  cases hfront

/-- The walk comes to stand so many symbols in. -/
inductive Reaches (judge : Judge β) : ℕ → List β → Prop where
  | here (stream : List β) : Reaches judge 0 stream
  | more {n : ℕ} {stream : List β} {token : Token} (hnext : next judge stream = some token)
      (hle : token.size ≤ n) (hrest : Reaches judge (n - token.size) (stream.drop token.size)) :
      Reaches judge n stream

namespace Reaches

variable {n : ℕ}

theorem le (h : Reaches judge n stream) : n ≤ stream.length := by
  induction h with
  | here => exact Nat.zero_le _
  | more hnext hle _ ih =>
      have hsize := (next_size hnext).2
      rw [List.length_drop] at ih
      omega

theorem snoc (h : Reaches judge n stream) (hnext : next judge (stream.drop n) = some token) :
    Reaches judge (n + token.size) stream := by
  induction h with
  | here stream =>
      rw [List.drop_zero] at hnext
      rw [Nat.zero_add]
      exact .more hnext le_rfl (by rw [Nat.sub_self]; exact .here _)
  | more hfirst hle _ ih =>
      rw [List.drop_drop, Nat.add_sub_cancel' hle] at ih
      refine .more hfirst (Nat.le_add_right_of_le hle) ?_
      rw [Nat.sub_add_comm hle]
      exact ih hnext

/-- A walk that has symbols to go takes a token that does not pass its goal. -/
theorem token_of_pos (h : Reaches judge n stream) (hpos : 0 < n) :
    ∃ token, next judge stream = some token ∧ token.size ≤ n ∧
      Reaches judge (n - token.size) (stream.drop token.size) := by
  cases h with
  | here => exact absurd hpos (Nat.lt_irrefl 0)
  | more hnext hle hrest => exact ⟨_, hnext, hle, hrest⟩

/-- Dead candidates let the walk through to the next place where one may start. -/
theorem of_dead {b : β} (hat : stream[n]? = some b) (hstarts : judge.starts b = true)
    (hdead : ∀ k < n, ∀ c, stream[k]? = some c → judge.starts c = true →
      judge.verdict (stream.drop k) = .dead) : Reaches judge n stream := by
  induction hn : n using Nat.strong_induction_on generalizing n stream with
  | _ n ih =>
      subst hn
      cases n with
      | zero => exact .here stream
      | succ k =>
          cases stream with
          | nil => cases hat
          | cons c rest =>
              have hgap : gap judge (c :: rest) ≤ k + 1 := gap_le hat hstarts
              have hpos := (@gap_bounds β judge c rest).1
              have hnext := next_of_dead fun hfront => hdead 0 (Nat.succ_pos k) c rfl hfront
              refine .more hnext hgap (ih _ (Nat.sub_lt (Nat.succ_pos k) hpos) ?_ ?_ rfl)
              · rw [List.getElem?_drop, Token.size, Nat.add_sub_cancel' hgap]
                exact hat
              · intro j hj c hc hfront
                rw [List.getElem?_drop] at hc
                rw [List.drop_drop]
                exact hdead _ (Nat.add_lt_of_lt_sub' hj) c hc hfront

end Reaches

end OpenServo.Hunt
