import OpenServo.Bench.Edges

/-!
# Decoding the exact wire

On the exact edges of break-framed frames the decoder finds every break and every byte,
as long as no break falls within a bit time of a stop bit's end: a fall that close is
taken for the next character of the frame.
-/

namespace OpenServo.Bench

open Client

/-! ## Ticks and levels -/

theorem time_ofNat {tick : ℕ} (h : tick < 2 ^ 32) (level : Level) :
    time ⟨.ofNat tick, level⟩ = tick := by
  rw [time, UInt32.toNat_ofNat_of_lt' h]

theorem ofInt_natCast (tick : ℕ) : UInt32.ofInt (tick : ℤ) = .ofNat tick := by
  apply UInt32.toNat_inj.mp
  have hwide := ofInt32_toNat (tick : ℤ)
  rw [UInt32.toNat_ofNat']
  omega

theorem ofInt_time (e : WireEdge) : UInt32.ofInt (time e) = e.tick := by
  rw [time, ofInt_natCast, UInt32.ofNat_toNat]

theorem partitionPoint_append {α : Type*} {p : α → Bool} {pre post : List α}
    (hpre : ∀ x ∈ pre, p x = true) (hpost : ∀ x ∈ post.head?, p x = false) :
    partitionPoint p (pre ++ post) = pre.length := by
  rw [partitionPoint, List.takeWhile_append_of_pos hpre]
  cases post with
  | nil => rw [List.takeWhile_nil, List.append_nil]
  | cons x post =>
      rw [List.takeWhile_cons_of_neg (by rw [hpost x rfl]; decide), List.append_nil]

def toEdge (e : WireEdge) : Waveform.Edge ℤ Level := ⟨time e, e.level⟩

/-- The decoder reads the line the edges describe. -/
theorem levelAt_eq (edges : List WireEdge) (at' : ℤ) :
    levelAt edges at' = Waveform.levelAt .high (edges.map toEdge) at' := by
  have hlast : Waveform.levelAt .high (edges.map toEdge) at' =
      ((edges.takeWhile fun e => decide (time e ≤ at')).getLast?.map WireEdge.level).getD
        .high := by
    rw [Waveform.levelAt_eq_getLast?, List.takeWhile_map, List.getLast?_map, Option.map_map]
    rfl
  rw [hlast, levelAt, partitionPoint]
  cases hcount : (edges.takeWhile fun e => decide (time e ≤ at')).length with
  | zero =>
      rw [List.length_eq_zero_iff.mp hcount]
      rfl
  | succ n =>
      have hsplit := @List.takeWhile_append_dropWhile _ (fun e => decide (time e ≤ at')) edges
      have hget : edges[n]? = (edges.takeWhile fun e => decide (time e ≤ at'))[n]? := by
        conv_lhs => rw [← hsplit]
        exact List.getElem?_append_left (by omega)
      show (edges[n]?.map WireEdge.level).getD .high = _
      rw [hget, List.getLast?_eq_getElem?, hcount]
      rfl

/-! ## A character -/

theorem levelEdges_eq {start b : ℕ} {level : Level} {k : ℕ} {bits : List Level}
    (h : start + (k + bits.length) * b < 2 ^ 32 + b) :
    (levelEdges start b level k bits).map toEdge =
      Waveform.edgesOf level (start + k * b : ℤ) b bits := by
  induction bits generalizing level k with
  | nil => rfl
  | cons bit bits ih =>
      rw [List.length_cons] at h
      have hscale : (k + (bits.length + 1)) * b = k * b + bits.length * b + b := by ring
      have htick : start + k * b < 2 ^ 32 := by
        have hrest := Nat.zero_le (bits.length * b)
        omega
      have hnext : ((k + 1 : ℕ) : ℤ) * b = k * b + b := by
        push_cast
        ring
      have hlater : start + (k + 1 + bits.length) * b < 2 ^ 32 + b := by
        rwa [add_assoc, add_comm 1]
      rw [levelEdges, Waveform.edgesOf]
      split
      · rw [List.map_cons, ih hlater, toEdge, time_ofNat htick, hnext, add_assoc]
        push_cast
        rfl
      · rw [ih hlater, hnext, add_assoc]

@[simp]
theorem length_charLevels (byte : Byte) : (charLevels byte).length = 10 := by
  simp [charLevels]

section

variable {start b : ℕ} {byte : Byte}

theorem charEdges_eq (h : start + 10 * b < 2 ^ 32 + b) :
    (charEdges start b byte).map toEdge =
      Waveform.edgesOf .high (start : ℤ) b (charLevels byte) := by
  have hfirst : (start : ℤ) + (0 : ℕ) * b = start := by simp
  rw [charEdges, levelEdges_eq (by rwa [length_charLevels, Nat.zero_add]), hfirst]

theorem mem_charEdges (h : start + 10 * b < 2 ^ 32 + b) {e : WireEdge}
    (he : e ∈ charEdges start b byte) : start ≤ time e ∧ time e + b ≤ start + 10 * b := by
  have hmem : toEdge e ∈ Waveform.edgesOf .high (start : ℤ) b (charLevels byte) := by
    rw [← charEdges_eq h]
    exact List.mem_map_of_mem he
  have hbounds := Waveform.mem_edgesOf (Int.natCast_nonneg b) hmem
  rw [length_charLevels, nsmul_eq_mul] at hbounds
  exact hbounds

theorem charEdges_pairwise (h : start + 10 * b < 2 ^ 32 + b) :
    (charEdges start b byte).Pairwise fun e f => time e ≤ time f := by
  have hordered := @Waveform.edgesOf_pairwise _ _ _ _ .high (start : ℤ) (b : ℤ) (charLevels byte)
    _ _ (Int.natCast_nonneg b)
  rw [← charEdges_eq h, List.pairwise_map] at hordered
  exact hordered

/-- A character begins with its start fall, and the line rises again. -/
theorem charEdges_cons (h : start + 10 * b < 2 ^ 32 + b) : ∃ rise rest,
    charEdges start b byte = ⟨.ofNat start, .low⟩ :: rise :: rest := by
  have hfall : charEdges start b byte = ⟨.ofNat (start + 0 * b), .low⟩ ::
      levelEdges start b .low 1 (charLevels byte).tail := rfl
  have hrise : levelEdges start b .low 1 (charLevels byte).tail ≠ [] := by
    intro hnone
    have hline := @levelEdges_eq start b .low 1 (charLevels byte).tail
      (by rwa [List.length_tail, length_charLevels])
    rw [hnone] at hline
    have hstop : Level.high ∈ (charLevels byte).tail := by simp [charLevels]
    cases Waveform.eq_of_edgesOf_eq_nil hline.symm _ hstop
  obtain ⟨rise, rest, hrest⟩ := List.exists_cons_of_ne_nil hrise
  exact ⟨rise, rest, by rw [hfall, hrest, Nat.zero_mul, Nat.add_zero]⟩

/-- Within bit `k` of a character the line shows it, whatever is around. -/
theorem levelAt_char {pre post : List WireEdge} {at' : ℤ} {k : ℕ}
    (h : start + 10 * b < 2 ^ 32 + b) (hpre : ∀ e ∈ pre, time e ≤ start)
    (hpost : ∀ e ∈ post, start + 10 * b ≤ time e) (hk : k < (charLevels byte).length)
    (hlow : start + k * b ≤ at') (hhigh : at' < start + (k + 1) * b) :
    levelAt (pre ++ charEdges start b byte ++ post) at' = (charLevels byte)[k] := by
  have hb : (0 : ℤ) ≤ b := Int.natCast_nonneg b
  have hbits := hk
  rw [length_charLevels] at hbits
  have hstart : (start : ℤ) ≤ at' := by nlinarith
  have hend : at' < start + 10 * b := by nlinarith
  have hbefore : ∀ e ∈ pre.map toEdge, e.time ≤ at' := by
    intro e he
    obtain ⟨e, hmem, rfl⟩ := List.mem_map.mp he
    exact (hpre e hmem).trans hstart
  have hafter : ∀ e ∈ post.map toEdge, at' < e.time := by
    intro e he
    obtain ⟨e, hmem, rfl⟩ := List.mem_map.mp he
    exact hend.trans_le (hpost e hmem)
  -- the start fall hides the level the line came in at
  have hfall : ∀ idle, Waveform.levelAt idle
      (Waveform.edgesOf .high (start : ℤ) b (charLevels byte)) at' =
        Waveform.levelAt .high (Waveform.edgesOf .high (start : ℤ) b (charLevels byte)) at' := by
    intro idle
    have hedges : ∃ rest, Waveform.edgesOf .high (start : ℤ) (b : ℤ) (charLevels byte) =
        ⟨start, .low⟩ :: rest := ⟨_, rfl⟩
    obtain ⟨rest, hrest⟩ := hedges
    rw [hrest, Waveform.levelAt, Waveform.levelAt, if_pos hstart, if_pos hstart]
  rw [levelAt_eq, List.map_append, List.map_append, Waveform.levelAt_append_of_lt hafter,
    Waveform.levelAt_append_of_le hbefore, charEdges_eq h, hfall]
  apply Waveform.levelAt_edgesOf hb hk
  · rwa [nsmul_eq_mul]
  · rw [nsmul_eq_mul]
    exact_mod_cast hhigh

/-- The bits of a byte, put back in their places. -/
theorem foldl_bits (byte : Byte) :
    (List.range 8).foldl (fun acc k =>
      if byte >>> UInt8.ofNat k &&& 1 == 1 then acc ||| 1 <<< UInt8.ofNat k else acc) 0 = byte := by
  revert byte
  decide +kernel

theorem sampleChar_char {pre post : List WireEdge} (hb : 0 < b)
    (h : start + 10 * b < 2 ^ 32 + b) (hpre : ∀ e ∈ pre, time e ≤ start)
    (hpost : ∀ e ∈ post, start + 10 * b ≤ time e) :
    sampleChar (pre ++ charEdges start b byte ++ post) start b = byte := by
  conv_rhs => rw [← foldl_bits byte]
  rw [sampleChar]
  apply List.foldl_ext
  intro acc k hk
  have hk' : k < 8 := List.mem_range.mp hk
  have hin : k + 1 < (charLevels byte).length := by
    rw [length_charLevels]
    omega
  -- the sampling point is in the middle of the bit, rounded down
  have hmiddle : (b : ℤ) * (3 + 2 * k) = (k + 1) * b * 2 + b := by ring
  have hnext : ((k : ℤ) + 1 + 1) * b = (k + 1) * b + b := by ring
  have hlevel := @levelAt_char start b byte pre post (start + b * (3 + 2 * k) / 2) (k + 1) h hpre
    hpost hin (by push_cast; omega) (by push_cast; omega)
  have hbit : (charLevels byte)[k + 1] =
      if byte >>> UInt8.ofNat k &&& 1 == 1 then .high else .low := by
    simp [charLevels, hk']
  rw [hlevel, hbit]
  cases byte >>> UInt8.ofNat k &&& 1 == 1 <;> rfl

end

/-! ## The next character -/

section

variable {pre post : List WireEdge} {lo hi : ℤ}

theorem nextFallIn_append (hpre : ∀ e ∈ pre, time e < lo) (hpost : ∀ e ∈ post.head?, lo ≤ time e) :
    nextFallIn (pre ++ post) lo hi =
      ((post.findIdx? fun e => decide (e.level = .low) && decide (time e ≤ hi)).map
        (pre.length + ·)).filter fun j => timeAt (pre ++ post) j ≤ hi := by
  have hfirst : partitionPoint (fun e => decide (time e < lo)) (pre ++ post) = pre.length := by
    apply partitionPoint_append
    · exact fun e he => decide_eq_true (hpre e he)
    · exact fun e he => decide_eq_false (not_lt.mpr (hpost e he))
  rw [nextFallIn, hfirst, List.drop_left]

theorem nextFallIn_of_fall {fall : WireEdge} (hpre : ∀ e ∈ pre, time e < lo)
    (hfall : fall.level = .low) (hlo : lo ≤ time fall) (hhi : time fall ≤ hi) :
    nextFallIn (pre ++ fall :: post) lo hi = some pre.length := by
  have hfound : (fall :: post).findIdx? (fun e => decide (e.level = .low) && decide (time e ≤ hi)) =
      some 0 := by
    rw [List.findIdx?_cons, hfall, decide_eq_true hhi]
    rfl
  have htime : timeAt (pre ++ fall :: post) pre.length = time fall := by
    simp [timeAt]
  rw [nextFallIn_append hpre (by simpa using hlo), hfound, Option.map_some, Nat.add_zero]
  simp [htime, hhi]

theorem nextFallIn_of_late (hpre : ∀ e ∈ pre, time e < lo) (hlate : ∀ e ∈ post, hi < time e)
    (hwindow : lo ≤ hi) : nextFallIn (pre ++ post) lo hi = none := by
  have hfound : post.findIdx? (fun e => decide (e.level = .low) && decide (time e ≤ hi)) =
      none := by
    rw [List.findIdx?_eq_none_iff]
    intro e he
    rw [decide_eq_false (not_le.mpr (hlate e he)), Bool.and_false]
  have hhead : ∀ e ∈ post.head?, lo ≤ time e :=
    fun e he => hwindow.trans (hlate e (List.mem_of_mem_head? he)).le
  rw [nextFallIn_append hpre hhead, hfound, Option.map_none, Option.filter_none]

end

/-! ## The characters of a frame -/

section

variable {edges pre post : List WireEdge} {start b turns : ℕ} {byte : Byte}

theorem before_window {e : WireEdge} (hb : 2 ≤ b) (h : start + 10 * b < 2 ^ 32 + b)
    (hpre : ∀ e ∈ pre, time e ≤ start) (he : e ∈ pre ++ charEdges start b byte) :
    time e < start + 19 * b / 2 := by
  rcases List.mem_append.mp he with he | he
  · have hbefore := hpre e he
    omega
  · have hbounds := mem_charEdges h he
    omega

/-- The loop stamps the character it is started on. -/
theorem chars_start {b start : ℤ} {r : List BStamp × ℤ}
    (h : chars edges b turns start = some r) :
    ∃ byte rest, r.1 = ⟨.ofInt start, byte, 0⟩ :: rest := by
  cases turns with
  | zero => cases h
  | succ turns =>
      rw [chars] at h
      cases hnext : nextFallIn edges (start + 19 * b / 2) (start + 11 * b) with
      | none =>
          simp only [hnext, Option.some.injEq] at h
          exact ⟨_, [], by rw [← h]⟩
      | some j =>
          simp only [hnext] at h
          obtain ⟨more, -, rfl⟩ := Option.map_eq_some_iff.mp h
          exact ⟨_, more.1, rfl⟩

/-- A fall in the window after a character is taken for the next one. -/
theorem chars_of_fall {fall : WireEdge}
    (hedges : edges = pre ++ charEdges start b byte ++ fall :: post) (hb : 2 ≤ b)
    (h : start + 10 * b < 2 ^ 32 + b) (hpre : ∀ e ∈ pre, time e ≤ start)
    (hpost : ∀ e ∈ fall :: post, start + 10 * b ≤ time e) (hfall : fall.level = .low)
    (hclose : time fall ≤ start + 11 * b) :
    chars edges b (turns + 1) start =
      (chars edges b turns (time fall)).map fun r => (⟨.ofNat start, byte, 0⟩ :: r.1, r.2) := by
  have hfirst := hpost fall List.mem_cons_self
  have hnext : nextFallIn edges (start + 19 * b / 2) (start + 11 * b) =
      some (pre ++ charEdges start b byte).length := by
    rw [hedges]
    exact nextFallIn_of_fall (fun e he => before_window hb h hpre he) hfall (by omega) hclose
  have htime : timeAt edges (pre ++ charEdges start b byte).length = time fall := by
    rw [hedges, timeAt, List.getElem?_append_right le_rfl, Nat.sub_self]
    rfl
  have hbyte : sampleChar edges start b = byte := by
    rw [hedges]
    exact sampleChar_char (by omega) h hpre hpost
  rw [chars, hnext, hbyte, ofInt_natCast]
  simp only [htime]

/-- With nothing in the window the frame ends. -/
theorem chars_of_late (hedges : edges = pre ++ charEdges start b byte ++ post) (hb : 2 ≤ b)
    (h : start + 10 * b < 2 ^ 32 + b) (hpre : ∀ e ∈ pre, time e ≤ start)
    (hlate : ∀ e ∈ post, start + 11 * b < time e) :
    chars edges b (turns + 1) start = some ([⟨.ofNat start, byte, 0⟩], (start : ℤ)) := by
  have hnext : nextFallIn edges (start + 19 * b / 2) (start + 11 * b) = none := by
    rw [hedges]
    exact nextFallIn_of_late (fun e he => before_window hb h hpre he) hlate (by omega)
  have hbyte : sampleChar edges start b = byte := by
    rw [hedges]
    refine sampleChar_char (by omega) h hpre fun e he => ?_
    have hafter := hlate e he
    omega
  rw [chars, hnext, hbyte, ofInt_natCast]

theorem mem_bytesEdges {bytes : List Byte} (h : start + 10 * b * bytes.length < 2 ^ 32 + b)
    {e : WireEdge} (he : e ∈ bytesEdges start b bytes) :
    start ≤ time e ∧ time e + b ≤ start + 10 * b * bytes.length := by
  induction bytes generalizing start with
  | nil => cases he
  | cons byte bytes ih =>
      have hspan : start + 10 * b * (byte :: bytes).length =
          start + 10 * b + 10 * b * bytes.length := by
        rw [List.length_cons]
        ring
      have hspan' : (start : ℤ) + 10 * b * (byte :: bytes).length =
          start + 10 * b + 10 * b * bytes.length := by exact_mod_cast hspan
      have hrest : (0 : ℤ) ≤ 10 * b * bytes.length := by positivity
      rw [hspan] at h
      rw [hspan']
      rcases List.mem_append.mp he with he | he
      · have hbounds := mem_charEdges (by omega) he
        omega
      · have hbounds := ih h he
        push_cast at hbounds
        omega

theorem bytesEdges_cons {bytes : List Byte} (hbytes : bytes ≠ [])
    (h : start + 10 * b < 2 ^ 32 + b) : ∃ rise rest,
    bytesEdges start b bytes = ⟨.ofNat start, .low⟩ :: rise :: rest ∧
      time rise + b ≤ start + 10 * b := by
  cases bytes with
  | nil => exact absurd rfl hbytes
  | cons byte bytes =>
      obtain ⟨rise, rest, hchar⟩ := @charEdges_cons start b byte h
      have hmem : rise ∈ charEdges start b byte := by
        rw [hchar]
        exact List.mem_cons_of_mem _ List.mem_cons_self
      exact ⟨rise, rest ++ bytesEdges (start + 10 * b) b bytes, by rw [bytesEdges, hchar]; rfl,
        (mem_charEdges h hmem).2⟩

/-- The character loop goes through the characters before the last one. -/
theorem chars_bytes {init : List Byte} {last : Byte}
    (hedges : edges = pre ++ bytesEdges start b (init ++ [last]) ++ post) (hb : 2 ≤ b)
    (h : start + 10 * b * (init.length + 1) < 2 ^ 32 + b) (hpre : ∀ e ∈ pre, time e ≤ start)
    (hpost : ∀ e ∈ post, start + 10 * b * (init.length + 1) ≤ time e) :
    chars edges b (turns + init.length) start =
      (chars edges b turns ((start + 10 * b * init.length : ℕ) : ℤ)).map fun r =>
        (bytesStamps start b init ++ r.1, r.2) := by
  induction init generalizing pre start with
  | nil =>
      simp [bytesStamps]
  | cons byte init ih =>
      have hspan : start + 10 * b * ((byte :: init).length + 1) =
          start + 10 * b + 10 * b * (init.length + 1) := by
        rw [List.length_cons]
        ring
      have hspan' : (start : ℤ) + 10 * b * ((byte :: init).length + 1) =
          (start + 10 * b : ℕ) + 10 * b * (init.length + 1) := by exact_mod_cast hspan
      have hstart : start + 10 * b * (init.length + 1) =
          start + 10 * b + 10 * b * init.length := by ring
      have hroom : 10 * b ≤ 10 * b * (init.length + 1) := Nat.le_mul_of_pos_right _ (by omega)
      rw [hspan] at h
      simp only [hspan'] at hpost
      have hsize : (init ++ [last]).length = init.length + 1 := by simp
      have hrest : ∀ e ∈ bytesEdges (start + 10 * b) b (init ++ [last]) ++ post,
          (start : ℤ) + 10 * b ≤ time e := by
        intro e he
        rcases List.mem_append.mp he with he | he
        · have hbounds := mem_bytesEdges (by rw [hsize]; exact h) he
          push_cast at hbounds
          exact hbounds.1
        · have hafter := hpost e he
          push_cast at hafter
          have hroom' : (0 : ℤ) ≤ 10 * b * (init.length + 1) := by positivity
          omega
      obtain ⟨rise, rest, hnext, -⟩ := @bytesEdges_cons (start + 10 * b) b (init ++ [last])
        (by simp) (by omega)
      have htick : time ⟨.ofNat (start + 10 * b), .low⟩ = (start + 10 * b : ℕ) :=
        time_ofNat (by omega) .low
      have hsplit : edges = pre ++ charEdges start b byte ++
          bytesEdges (start + 10 * b) b (init ++ [last]) ++ post := by
        rw [hedges, List.cons_append, bytesEdges]
        simp only [List.append_assoc]
      have hturn : chars edges b (turns + init.length + 1) start =
          (chars edges b (turns + init.length) ((start + 10 * b : ℕ) : ℤ)).map fun r =>
            (⟨.ofNat start, byte, 0⟩ :: r.1, r.2) := by
        rw [← htick]
        refine @chars_of_fall edges pre (rise :: rest ++ post) start b _ byte _ ?_ hb (by omega)
          hpre ?_ rfl ?_
        · rw [hsplit, hnext]
          simp only [List.append_assoc, List.cons_append]
        · rw [hnext] at hrest
          exact hrest
        · rw [htick]
          push_cast
          omega
      rw [List.length_cons, ← Nat.add_assoc, hturn, ih hsplit h ?_ hpost, hstart, Option.map_map]
      · rfl
      · intro e he
        rcases List.mem_append.mp he with he | he
        · have hbefore := hpre e he
          omega
        · have hbounds := mem_charEdges (by omega) he
          omega

theorem bytesEdges_append (init bytes : List Byte) :
    bytesEdges start b (init ++ bytes) =
      bytesEdges start b init ++ bytesEdges (start + 10 * b * init.length) b bytes := by
  induction init generalizing start with
  | nil => simp [bytesEdges]
  | cons byte init ih =>
      have hstart : start + 10 * b * (init.length + 1) =
          start + 10 * b + 10 * b * init.length := by ring
      rw [List.cons_append, bytesEdges, bytesEdges, ih, List.length_cons, hstart,
        List.append_assoc]

theorem bytesStamps_append (init bytes : List Byte) :
    bytesStamps start b (init ++ bytes) =
      bytesStamps start b init ++ bytesStamps (start + 10 * b * init.length) b bytes := by
  induction init generalizing start with
  | nil => simp [bytesStamps]
  | cons byte init ih =>
      have hstart : start + 10 * b * (init.length + 1) =
          start + 10 * b + 10 * b * init.length := by ring
      rw [List.cons_append, bytesStamps, bytesStamps, ih, List.length_cons, hstart,
        List.cons_append]

end

/-! ## Turns of the outer loop -/

section

variable {edges pre post : List WireEdge} {b : ℤ} {turns : ℕ} {fall next : WireEdge}

theorem scan_of_end : scan edges b (turns + 1) edges.length = some [] := by
  rw [scan, List.getElem?_eq_none le_rfl]

theorem scan_of_high (hedges : edges = pre ++ next :: post) (hlevel : next.level = .high) :
    scan edges b (turns + 1) pre.length = scan edges b turns (pre.length + 1) := by
  have hget : edges[pre.length]? = some next := by simp [hedges]
  rw [scan, hget]
  simp [hlevel]

theorem scan_of_break (hedges : edges = pre ++ fall :: next :: post) (hlevel : fall.level = .low)
    (hlong : 19 * b ≤ (time next - time fall) * 2) :
    scan edges b (turns + 1) pre.length =
      (scan edges b turns (pre.length + 1)).map (⟨fall.tick, 0, BStamp.boundary⟩ :: ·) := by
  have hget : edges[pre.length]? = some fall := by simp [hedges]
  have hget' : edges[pre.length + 1]? = some next := by simp [hedges]
  rw [scan, hget]
  simp [hlevel, hget', hlong]

theorem scan_of_char (hedges : edges = pre ++ fall :: next :: post) (hlevel : fall.level = .low)
    (hshort : (time next - time fall) * 2 < 19 * b) :
    scan edges b (turns + 1) pre.length =
      (chars edges b edges.length (time fall)).bind fun r =>
        (scan edges b turns (partitionPoint (fun e => time e < r.2 + 10 * b) edges)).map
          (r.1 ++ ·) := by
  have hget : edges[pre.length]? = some fall := by simp [hedges]
  have hget' : edges[pre.length + 1]? = some next := by simp [hedges]
  rw [scan, hget]
  simp only [hlevel, ne_eq, not_true_eq_false, if_false, hget', ge_iff_le, not_le.mpr hshort]
  cases chars edges b edges.length (time fall) with
  | none => rfl
  | some r =>
      rw [Option.bind_some, Option.map_eq_bind]
      rfl

end

/-! ## A frame -/

theorem length_bytesEdges (start b : ℕ) (bytes : List Byte) :
    bytes.length ≤ (bytesEdges start b bytes).length := by
  induction bytes generalizing start with
  | nil => exact le_rfl
  | cons byte bytes ih =>
      have hfirst : 1 ≤ (charEdges start b byte).length := Nat.succ_le_succ (Nat.zero_le _)
      have hrest := ih (start + 10 * b)
      rw [bytesEdges, List.length_append, List.length_cons]
      omega

namespace WireFrame

variable {frame : WireFrame} {fall b turns : ℕ} {edges pre post : List WireEdge}

theorem anchor_le_close : frame.anchor fall b ≤ frame.close fall b := Nat.le_add_right _ _

theorem fall_le_anchor : fall + 10 * b ≤ frame.anchor fall b := Nat.le_add_right _ _

theorem mem_edges (h : frame.close fall b < 2 ^ 32) {e : WireEdge} (he : e ∈ frame.edges fall b) :
    fall ≤ time e ∧ time e ≤ frame.close fall b := by
  have hanchor := @fall_le_anchor frame fall b
  have hclose := @anchor_le_close frame fall b
  rcases List.mem_cons.mp he with rfl | he
  · rw [time_ofNat (by omega)]
    omega
  · rcases List.mem_cons.mp he with rfl | he
    · rw [time_ofNat (by omega)]
      omega
    · have hbounds := mem_bytesEdges (by rw [close] at h; omega) he
      rw [close]
      push_cast
      omega

/-- The break and its rise take two turns. -/
theorem scan_break (hedges : edges = pre ++ frame.edges fall b ++ post)
    (h : frame.close fall b < 2 ^ 32) :
    scan edges b (turns + 2) pre.length =
      (scan edges b turns (pre.length + 2)).map (⟨.ofNat fall, 0, BStamp.boundary⟩ :: ·) := by
  have hanchor := @fall_le_anchor frame fall b
  have hclose := @anchor_le_close frame fall b
  have hfall := time_ofNat (show fall < 2 ^ 32 by omega) .low
  have hrise := time_ofNat (show fall + 10 * b < 2 ^ 32 by omega) .high
  have hbreak : edges = pre ++ ⟨.ofNat fall, .low⟩ :: ⟨.ofNat (fall + 10 * b), .high⟩ ::
      (bytesEdges (frame.anchor fall b) b frame.bytes ++ post) := by
    rw [hedges, WireFrame.edges]
    simp only [List.append_assoc, List.cons_append]
  have hlevel : edges = (pre ++ [⟨.ofNat fall, .low⟩]) ++ ⟨.ofNat (fall + 10 * b), .high⟩ ::
      (bytesEdges (frame.anchor fall b) b frame.bytes ++ post) := by
    rw [hbreak]
    simp only [List.append_assoc, List.cons_append, List.nil_append]
  have hnext := @scan_of_high edges _ _ b turns _ hlevel rfl
  rw [List.length_append, List.length_singleton] at hnext
  rw [scan_of_break hbreak rfl (by rw [hfall, hrise]; push_cast; omega), hnext]

/-- A third turn goes through the bytes. -/
theorem scan_bytes (hedges : edges = pre ++ frame.edges fall b ++ post) (hb : 2 ≤ b)
    (h : frame.close fall b < 2 ^ 32) (hbytes : frame.bytes ≠ []) :
    scan edges b (turns + 3) pre.length =
      ((chars edges b edges.length (frame.anchor fall b)).bind fun r =>
        (scan edges b turns (partitionPoint (fun e => time e < r.2 + 10 * b) edges)).map
          (r.1 ++ ·)).map (⟨.ofNat fall, 0, BStamp.boundary⟩ :: ·) := by
  have hroom : 10 * b ≤ 10 * b * frame.bytes.length :=
    Nat.le_mul_of_pos_right _ (List.length_pos_of_ne_nil hbytes)
  have hsize : frame.close fall b = frame.anchor fall b + 10 * b * frame.bytes.length := rfl
  have hanchor := time_ofNat (show frame.anchor fall b < 2 ^ 32 by omega) .low
  obtain ⟨rise, rest, hfirst, hshort⟩ := bytesEdges_cons hbytes
    (show frame.anchor fall b + 10 * b < 2 ^ 32 + b by omega)
  have hchar : edges = (pre ++ [⟨.ofNat fall, .low⟩, ⟨.ofNat (fall + 10 * b), .high⟩]) ++
      ⟨.ofNat (frame.anchor fall b), .low⟩ :: rise :: (rest ++ post) := by
    rw [hedges, WireFrame.edges, hfirst]
    simp only [List.append_assoc, List.cons_append, List.nil_append]
  have hturn := @scan_of_char edges _ _ b turns _ _ hchar rfl (by rw [hanchor]; omega)
  rw [hanchor, List.length_append] at hturn
  rw [scan_break hedges h]
  exact congrArg _ hturn

/-- The turns a frame takes. -/
def visits (frame : WireFrame) : ℕ := if frame.bytes = [] then 2 else 3

theorem visits_le (frame : WireFrame) (fall b : ℕ) :
    frame.visits ≤ (frame.edges fall b).length := by
  have hbytes := length_bytesEdges (frame.anchor fall b) b frame.bytes
  rw [visits, WireFrame.edges, List.length_cons, List.length_cons]
  split
  · omega
  · rename_i hsome
    have hpos := List.length_pos_of_ne_nil hsome
    omega

section

variable {init : List Byte} {last : Byte}

/-- What is in front of the last character. -/
def head (frame : WireFrame) (fall b : ℕ) (init : List Byte) : List WireEdge :=
  ⟨.ofNat fall, .low⟩ :: ⟨.ofNat (fall + 10 * b), .high⟩ ::
    bytesEdges (frame.anchor fall b) b init

/-- The start fall of the last character. -/
def lastStart (frame : WireFrame) (fall b : ℕ) (init : List Byte) : ℕ :=
  frame.anchor fall b + 10 * b * init.length

theorem close_eq (hbytes : frame.bytes = init ++ [last]) :
    frame.close fall b = frame.lastStart fall b init + 10 * b := by
  rw [close, lastStart, hbytes, List.length_append, List.length_singleton]
  ring

theorem edges_eq (hbytes : frame.bytes = init ++ [last]) :
    frame.edges fall b =
      frame.head fall b init ++ charEdges (frame.lastStart fall b init) b last := by
  rw [WireFrame.edges, hbytes, bytesEdges_append, bytesEdges, bytesEdges, List.append_nil]
  rfl

theorem stamps_eq (hbytes : frame.bytes = init ++ [last]) :
    frame.stamps fall b = ⟨.ofNat fall, 0, BStamp.boundary⟩ ::
      (bytesStamps (frame.anchor fall b) b init ++
        [⟨.ofNat (frame.lastStart fall b init), last, 0⟩]) := by
  rw [stamps, hbytes, bytesStamps_append]
  rfl

theorem head_le (h : frame.lastStart fall b init < 2 ^ 32) (hpre : ∀ e ∈ pre, time e ≤ fall) :
    ∀ e ∈ pre ++ frame.head fall b init, time e ≤ frame.lastStart fall b init := by
  intro e he
  have hanchor := @fall_le_anchor frame fall b
  have hlast : frame.anchor fall b ≤ frame.lastStart fall b init := Nat.le_add_right _ _
  rcases List.mem_append.mp he with he | he
  · have hbefore := hpre e he
    omega
  · rcases List.mem_cons.mp he with rfl | he
    · rw [time_ofNat (by omega)]
      omega
    · rcases List.mem_cons.mp he with rfl | he
      · rw [time_ofNat (by omega)]
        omega
      · have hbounds := mem_bytesEdges (by rw [lastStart] at h; omega) he
        rw [lastStart]
        push_cast
        omega

/-- The character loop comes to the last character with a turn to spare. -/
theorem chars_head (hedges : edges = pre ++ frame.edges fall b ++ post) (hb : 2 ≤ b)
    (h : frame.close fall b < 2 ^ 32) (hpre : ∀ e ∈ pre, time e ≤ fall)
    (hpost : ∀ e ∈ post, frame.close fall b ≤ time e) (hbytes : frame.bytes = init ++ [last]) :
    ∃ spare, chars edges b edges.length (frame.anchor fall b) =
      (chars edges b (spare + 1) (frame.lastStart fall b init)).map fun r =>
        (bytesStamps (frame.anchor fall b) b init ++ r.1, r.2) := by
  have hanchor := @fall_le_anchor frame fall b
  have hsize := length_bytesEdges (frame.anchor fall b) b frame.bytes
  have hlength : init.length + 1 ≤ edges.length := by
    rw [hbytes, List.length_append, List.length_singleton] at hsize
    rw [hedges, List.length_append, List.length_append, WireFrame.edges, List.length_cons,
      List.length_cons, hbytes]
    omega
  have hclose : frame.anchor fall b + 10 * b * (init.length + 1) = frame.close fall b := by
    rw [close, hbytes, List.length_append, List.length_singleton]
  have hsplit : edges = pre ++ [⟨.ofNat fall, .low⟩, ⟨.ofNat (fall + 10 * b), .high⟩] ++
      bytesEdges (frame.anchor fall b) b (init ++ [last]) ++ post := by
    rw [hedges, WireFrame.edges, hbytes]
    simp only [List.append_assoc, List.cons_append, List.nil_append]
  refine ⟨edges.length - init.length - 1, ?_⟩
  have hturns : edges.length = edges.length - init.length - 1 + 1 + init.length := by omega
  conv_lhs => rw [hturns]
  refine chars_bytes hsplit hb (by omega) (@head_le frame fall b pre [] ?_ hpre) fun e he => ?_
  · rw [lastStart, List.length_nil]
    omega
  · have hafter := hpost e he
    rw [← hclose] at hafter
    exact_mod_cast hafter

end

/-- With the line quiet for more than a bit behind its bytes, a frame is decoded
whole. -/
theorem scan_edges (hedges : edges = pre ++ frame.edges fall b ++ post) (hb : 2 ≤ b)
    (h : frame.close fall b < 2 ^ 32) (hpre : ∀ e ∈ pre, time e ≤ fall)
    (hpost : ∀ e ∈ post, frame.close fall b ≤ time e)
    (hquiet : frame.bytes = [] ∨ ∀ e ∈ post, frame.close fall b + b < time e) :
    scan edges b (turns + frame.visits) pre.length =
      (scan edges b turns (pre ++ frame.edges fall b).length).map (frame.stamps fall b ++ ·) := by
  rcases List.eq_nil_or_concat' frame.bytes with hnone | ⟨init, last, hbytes⟩
  · rw [visits, if_pos hnone, scan_break hedges h, stamps, WireFrame.edges, hnone,
      List.length_append]
    rfl
  · have hsome : frame.bytes ≠ [] := by simp [hbytes]
    have hend := @close_eq frame fall b _ _ hbytes
    have hclear : ∀ e ∈ post, (frame.close fall b : ℤ) + b < time e :=
      hquiet.resolve_left hsome
    have hsplit : edges = pre ++ frame.head fall b init ++
        charEdges (frame.lastStart fall b init) b last ++ post := by
      rw [hedges, edges_eq hbytes]
      simp only [List.append_assoc]
    obtain ⟨spare, hchars⟩ := chars_head hedges hb h hpre hpost hbytes
    have hlast := @chars_of_late edges _ post (frame.lastStart fall b init) b spare last hsplit hb
      (by omega) (head_le (by omega) hpre) fun e he => by
        have hafter := hclear e he
        omega
    have hafter : partitionPoint
        (fun e => decide (time e < (frame.lastStart fall b init : ℤ) + 10 * b)) edges =
          (pre ++ frame.edges fall b).length := by
      rw [hedges]
      apply partitionPoint_append
      · intro e he
        rw [edges_eq hbytes, ← List.append_assoc] at he
        rcases List.mem_append.mp he with he | he
        · have hbefore := head_le (by omega) hpre e he
          exact decide_eq_true (by omega)
        · have hbounds := mem_charEdges (by omega) he
          exact decide_eq_true (by omega)
      · intro e he
        have hlate := hpost e (List.mem_of_mem_head? he)
        exact decide_eq_false (by omega)
    rw [visits, if_neg hsome, scan_bytes hedges hb h hsome, hchars, hlast]
    simp only [Option.map_some, Option.bind_some, hafter, Option.map_map]
    rw [stamps_eq hbytes]
    rfl

/-- A break that falls within a bit of the end of the bytes is taken for one more of
them. -/
theorem scan_edges_close {fall' : WireEdge}
    (hedges : edges = pre ++ frame.edges fall b ++ fall' :: post) (hb : 2 ≤ b)
    (h : frame.close fall b < 2 ^ 32) (hpre : ∀ e ∈ pre, time e ≤ fall)
    (hpost : ∀ e ∈ fall' :: post, frame.close fall b ≤ time e) (hbytes : frame.bytes ≠ [])
    (hlevel : fall'.level = .low) (hclose : time fall' ≤ frame.close fall b + b)
    {out : List BStamp} (hout : scan edges b (turns + 3) pre.length = some out) :
    ∃ byte rest, out = frame.stamps fall b ++ ⟨fall'.tick, byte, 0⟩ :: rest := by
  obtain ⟨init, last, hinit⟩ := (List.eq_nil_or_concat' frame.bytes).resolve_left hbytes
  have hend := @close_eq frame fall b _ _ hinit
  have hsplit : edges = pre ++ frame.head fall b init ++
      charEdges (frame.lastStart fall b init) b last ++ fall' :: post := by
    rw [hedges, edges_eq hinit]
    simp only [List.append_assoc]
  obtain ⟨spare, hchars⟩ := chars_head hedges hb h hpre hpost hinit
  have hlast := @chars_of_fall edges _ post (frame.lastStart fall b init) b spare last fall' hsplit
    hb (by omega) (head_le (by omega) hpre) (fun e he => by
      have hafter := hpost e he
      omega) hlevel (by omega)
  rw [scan_bytes hedges hb h hbytes, hchars, hlast] at hout
  obtain ⟨decoded, hdecoded, rfl⟩ := Option.map_eq_some_iff.mp hout
  obtain ⟨r, hr, hrest⟩ := Option.bind_eq_some_iff.mp hdecoded
  obtain ⟨tail, -, rfl⟩ := Option.map_eq_some_iff.mp hrest
  obtain ⟨r', hr', rfl⟩ := Option.map_eq_some_iff.mp hr
  obtain ⟨more, hmore, rfl⟩ := Option.map_eq_some_iff.mp hr'
  obtain ⟨byte, rest, hstart⟩ := chars_start hmore
  refine ⟨byte, rest ++ tail, ?_⟩
  rw [stamps_eq hinit, hstart, ofInt_time]
  simp only [List.cons_append, List.append_assoc, List.nil_append]

end WireFrame

/-! ## Every capture in time order is decoded -/

/-- The capture is in time order. -/
def Ordered (edges : List WireEdge) : Prop := edges.Pairwise fun e f => time e ≤ time f

section

variable {edges : List WireEdge} {b lo hi : ℤ} {turns : ℕ}

theorem Ordered.le_of_mem_drop (h : Ordered edges) :
    ∀ e ∈ edges.drop (partitionPoint (fun e => decide (time e < lo)) edges), lo ≤ time e := by
  induction edges with
  | nil => exact fun _ he => absurd he (by simp)
  | cons first edges ih =>
      obtain ⟨hfirst, hrest⟩ := List.pairwise_cons.mp h
      intro e he
      by_cases hbefore : time first < lo
      · have hcount : partitionPoint (fun e => decide (time e < lo)) (first :: edges) =
            partitionPoint (fun e => decide (time e < lo)) edges + 1 := by
          simp [partitionPoint, hbefore]
        rw [hcount, List.drop_succ_cons] at he
        exact ih hrest e he
      · have hge := not_lt.mp hbefore
        have hcount : partitionPoint (fun e => decide (time e < lo)) (first :: edges) = 0 := by
          simp [partitionPoint, hge]
        rw [hcount, List.drop_zero] at he
        rcases List.mem_cons.mp he with rfl | he
        · exact hge
        · exact hge.trans (hfirst e he)

theorem Ordered.lt_of_time_lt (h : Ordered edges) {i j : ℕ} {e e' : WireEdge}
    (hget : edges[i]? = some e) (hget' : edges[j]? = some e') (hlt : time e < time e') : i < j := by
  obtain ⟨hi, rfl⟩ := List.getElem?_eq_some_iff.mp hget
  obtain ⟨hj, rfl⟩ := List.getElem?_eq_some_iff.mp hget'
  by_contra hge
  rcases Nat.lt_or_eq_of_le (not_lt.mp hge) with hbefore | rfl
  · exact absurd hlt (not_lt.mpr (List.pairwise_iff_getElem.mp h j i hj hi hbefore))
  · exact lt_irrefl _ hlt

/-- What is early enough is in front of the partition point. -/
theorem Ordered.lt_partitionPoint (h : Ordered edges) {i : ℕ} {e : WireEdge}
    (hget : edges[i]? = some e) (hlt : time e < hi) :
    i < partitionPoint (fun e => decide (time e < hi)) edges := by
  by_contra hge
  obtain ⟨k, hk⟩ := Nat.exists_eq_add_of_le (not_lt.mp hge)
  have hmem : e ∈ edges.drop (partitionPoint (fun e => decide (time e < hi)) edges) := by
    apply List.mem_of_getElem? (i := k)
    rw [List.getElem?_drop, ← hk, hget]
  exact absurd hlt (not_lt.mpr (h.le_of_mem_drop e hmem))

theorem Ordered.nextFallIn_eq_some (h : Ordered edges) {j : ℕ}
    (hnext : nextFallIn edges lo hi = some j) :
    ∃ e, edges[j]? = some e ∧ timeAt edges j = time e ∧ lo ≤ time e := by
  have hmap := (Option.filter_eq_some_iff.mp hnext).1
  obtain ⟨p, hp, rfl⟩ := Option.map_eq_some_iff.mp hmap
  obtain ⟨hin, -⟩ := List.findIdx?_eq_some_iff_getElem.mp hp
  have hget : edges[partitionPoint (fun e => decide (time e < lo)) edges + p]? =
      some (edges.drop (partitionPoint (fun e => decide (time e < lo)) edges))[p] := by
    rw [← List.getElem?_drop, List.getElem?_eq_getElem hin]
  refine ⟨_, hget, ?_, h.le_of_mem_drop _ (List.getElem_mem hin)⟩
  rw [timeAt, hget]
  rfl

/-- The character loop ends: every next start fall is further on in the capture. -/
theorem Ordered.chars_isSome (h : Ordered edges) (hb : 0 < b) {i : ℕ} {e : WireEdge}
    (hget : edges[i]? = some e) (hturns : edges.length - i ≤ turns) :
    ∃ r, chars edges b turns (time e) = some r ∧ time e ≤ r.2 := by
  induction turns generalizing i e with
  | zero =>
      have hin := (List.getElem?_eq_some_iff.mp hget).1
      omega
  | succ turns ih =>
      rw [chars]
      cases hnext : nextFallIn edges (time e + 19 * b / 2) (time e + 11 * b) with
      | none => exact ⟨_, rfl, le_rfl⟩
      | some j =>
          obtain ⟨e', hget', htime, hlo⟩ := h.nextFallIn_eq_some hnext
          have hlater : time e < time e' := by omega
          have hafter := h.lt_of_time_lt hget hget' hlater
          obtain ⟨r, hr, hlast⟩ := ih hget' (by omega)
          simp only [htime, hr, Option.map_some]
          exact ⟨_, rfl, hlater.le.trans hlast⟩

theorem Ordered.scan_isSome (h : Ordered edges) (hb : 0 < b) (i : ℕ)
    (hturns : edges.length - i < turns) : ∃ out, scan edges b turns i = some out := by
  induction turns generalizing i with
  | zero => omega
  | succ turns ih =>
      rw [scan]
      cases hget : edges[i]? with
      | none => exact ⟨[], rfl⟩
      | some edge =>
          have hin := (List.getElem?_eq_some_iff.mp hget).1
          obtain ⟨rest, hrest⟩ := ih (i + 1) (by omega)
          simp only
          split
          · exact ⟨rest, hrest⟩
          · cases hget' : edges[i + 1]? with
            | none => exact ⟨[], rfl⟩
            | some next =>
                simp only
                split
                · exact ⟨_, by rw [hrest, Option.map_some]⟩
                · obtain ⟨r, hr, hlast⟩ := h.chars_isSome hb hget (Nat.sub_le _ _)
                  have hafter := h.lt_partitionPoint hget (show time edge < r.2 + 10 * b by omega)
                  obtain ⟨rest, hrest⟩ := ih _ (show edges.length - partitionPoint
                    (fun e => decide (time e < r.2 + 10 * b)) edges < turns by omega)
                  refine ⟨r.1 ++ rest, ?_⟩
                  simp only [hr, Option.bind_eq_bind, Option.bind_some, hrest]
                  rfl

/-- The decoder returns on every capture in time order. -/
theorem Ordered.stampsFromEdges_isSome (h : Ordered edges) {bitTicks : UInt32}
    (hb : 0 < bitTicks.toNat) : ∃ out, stampsFromEdges edges bitTicks = some out :=
  h.scan_isSome (Int.natCast_pos.mpr hb) 0 (by omega)

end

/-! ## Frames one after another -/

section

variable {fall b turns : ℕ} {frame : WireFrame} {frames : List WireFrame}
  {edges pre : List WireEdge}

theorem mem_wireEdges (h : Exact fall b frames) {e : WireEdge} (he : e ∈ wireEdges fall b frames) :
    fall ≤ time e := by
  induction frames generalizing fall with
  | nil => cases he
  | cons frame frames ih =>
      rcases List.mem_append.mp he with he | he
      · exact (WireFrame.mem_edges h.1 he).1
      · have hlater := ih h.2 he
        have hanchor := @WireFrame.fall_le_anchor frame fall b
        have hclose := @WireFrame.anchor_le_close frame fall b
        rw [WireFrame.next] at hlater
        omega

theorem bytesEdges_pairwise {start : ℕ} {bytes : List Byte}
    (h : start + 10 * b * bytes.length < 2 ^ 32 + b) : Ordered (bytesEdges start b bytes) := by
  induction bytes generalizing start with
  | nil => exact List.Pairwise.nil
  | cons byte bytes ih =>
      have hspan : start + 10 * b * (byte :: bytes).length =
          start + 10 * b + 10 * b * bytes.length := by
        rw [List.length_cons]
        ring
      rw [hspan] at h
      refine List.pairwise_append.mpr ⟨charEdges_pairwise (by omega), ih h, fun e he f hf => ?_⟩
      have hbefore := mem_charEdges (by omega) he
      have hafter := mem_bytesEdges h hf
      push_cast at hafter
      omega

theorem WireFrame.edges_pairwise (h : frame.close fall b < 2 ^ 32) :
    Ordered (frame.edges fall b) := by
  have hanchor := @WireFrame.fall_le_anchor frame fall b
  have hclose := @WireFrame.anchor_le_close frame fall b
  have hend : frame.anchor fall b + 10 * b * frame.bytes.length = frame.close fall b := rfl
  refine List.pairwise_cons.mpr ⟨fun e he => ?_, List.pairwise_cons.mpr ⟨fun e he => ?_, ?_⟩⟩
  · have hafter := (WireFrame.mem_edges h (List.mem_cons_of_mem _ he)).1
    rwa [time_ofNat (by omega)]
  · have hafter := (mem_bytesEdges (by omega) he).1
    rw [time_ofNat (by omega)]
    omega
  · exact bytesEdges_pairwise (by omega)

theorem wireEdges_pairwise (h : Exact fall b frames) : Ordered (wireEdges fall b frames) := by
  induction frames generalizing fall with
  | nil => exact List.Pairwise.nil
  | cons frame frames ih =>
      refine List.pairwise_append.mpr ⟨frame.edges_pairwise h.1, ih h.2, fun e he f hf => ?_⟩
      have hbefore := (WireFrame.mem_edges h.1 he).2
      have hafter := mem_wireEdges h.2 hf
      rw [WireFrame.next] at hafter
      omega

/-- Every frame with bytes but the last has more than a bit of idle behind it. -/
def Spaced (b : ℕ) (frames : List WireFrame) : Prop :=
  ∀ frame ∈ frames.dropLast, frame.bytes = [] ∨ b < frame.idle

theorem spaced_cons (hlater : frames ≠ []) :
    Spaced b (frame :: frames) ↔
      (frame.bytes = [] ∨ b < frame.idle) ∧ Spaced b frames := by
  rw [Spaced, List.dropLast_cons_of_ne_nil hlater, List.forall_mem_cons]
  rfl

/-- The decoder reads the frames from any point of the capture on exactly if they are
spaced. -/
theorem scan_wire (hedges : edges = pre ++ wireEdges fall b frames) (hb : 2 ≤ b)
    (h : Exact fall b frames) (hpre : ∀ e ∈ pre, time e ≤ fall)
    (hturns : (wireEdges fall b frames).length < turns) :
    scan edges b turns pre.length = some (wireStamps fall b frames) ↔ Spaced b frames := by
  induction frames generalizing fall pre turns with
  | nil =>
      obtain ⟨turns, rfl⟩ := Nat.exists_eq_add_of_lt (Nat.zero_lt_of_lt hturns)
      rw [wireEdges, List.append_nil] at hedges
      rw [← hedges, Nat.zero_add, scan_of_end]
      exact iff_of_true rfl nofun
  | cons frame frames ih =>
      have hnext : frame.next fall b = frame.close fall b + frame.idle := rfl
      have hsplit :
          edges = pre ++ frame.edges fall b ++ wireEdges (frame.next fall b) b frames := by
        rw [hedges, wireEdges, List.append_assoc]
      have hpost : ∀ e ∈ wireEdges (frame.next fall b) b frames, (frame.close fall b : ℤ) +
          frame.idle ≤ time e := by
        intro e he
        have hafter := mem_wireEdges h.2 he
        rw [hnext] at hafter
        exact_mod_cast hafter
      have hclosed : ∀ e ∈ wireEdges (frame.next fall b) b frames,
          (frame.close fall b : ℤ) ≤ time e :=
        fun e he => (le_add_of_nonneg_right (Int.natCast_nonneg _)).trans (hpost e he)
      have hpre' : ∀ e ∈ pre ++ frame.edges fall b, time e ≤ frame.next fall b := by
        intro e he
        have hanchor := @WireFrame.fall_le_anchor frame fall b
        have hclose := @WireFrame.anchor_le_close frame fall b
        rcases List.mem_append.mp he with he | he
        · have hbefore := hpre e he
          omega
        · have hbounds := (WireFrame.mem_edges h.1 he).2
          omega
      have hvisits := frame.visits_le fall b
      rw [wireEdges, List.length_append] at hturns
      by_cases hquiet : frames = [] ∨ frame.bytes = [] ∨ b < frame.idle
      · have hspaced : Spaced b (frame :: frames) ↔ Spaced b frames := by
          by_cases hlast : frames = []
          · rw [hlast]
            exact iff_of_true nofun nofun
          · rw [spaced_cons hlast]
            exact and_iff_right (hquiet.resolve_left hlast)
        have hclear : frame.bytes = [] ∨ ∀ e ∈ wireEdges (frame.next fall b) b frames,
            (frame.close fall b : ℤ) + b < time e := by
          rcases hquiet with rfl | hnone | hidle
          · exact .inr nofun
          · exact .inl hnone
          · refine .inr fun e he => ?_
            have hafter := hpost e he
            omega
        obtain ⟨spare, rfl⟩ : ∃ spare, turns = spare + frame.visits :=
          ⟨turns - frame.visits, by omega⟩
        rw [frame.scan_edges hsplit hb h.1 hpre hclosed hclear, hspaced,
          ← ih hsplit h.2 hpre' (show _ < spare by omega), wireStamps, Option.map_eq_some_iff]
        simp only [List.append_cancel_left_eq, exists_eq_right]
      · obtain ⟨hlater, hbytes, hidle⟩ : frames ≠ [] ∧ frame.bytes ≠ [] ∧ ¬ b < frame.idle := by
          rwa [not_or, not_or] at hquiet
        rw [spaced_cons hlater]
        refine iff_of_false (fun hout => ?_) fun hspaced => (not_or.mpr ⟨hbytes, hidle⟩) hspaced.1
        obtain ⟨spare, rfl⟩ : ∃ spare, turns = spare + 3 := by
          rw [WireFrame.visits, if_neg hbytes] at hvisits
          exact ⟨turns - 3, by omega⟩
        obtain ⟨frame', frames, rfl⟩ := List.exists_cons_of_ne_nil hlater
        have htick := time_ofNat (show frame.next fall b < 2 ^ 32 from ?_) .low
        · obtain ⟨byte, rest, hstamps⟩ := frame.scan_edges_close hsplit hb h.1 hpre hclosed
            hbytes rfl (by rw [htick]; omega) hout
          rw [wireStamps, List.append_cancel_left_eq] at hstamps
          have hflags : BStamp.boundary = 0 := congrArg BStamp.flags (List.cons.inj hstamps).1
          exact absurd hflags (by decide)
        · have hclose := h.2.1
          have hanchor := @WireFrame.fall_le_anchor frame' (frame.next fall b) b
          have hstop := @WireFrame.anchor_le_close frame' (frame.next fall b) b
          omega

/-- On the exact edges of frames the decoder returns, and returns the frames' stamps
exactly if they are spaced. -/
theorem stamps_of_wire_iff {bitTicks : UInt32} (hb : 2 ≤ bitTicks)
    (hexact : Exact fall bitTicks.toNat frames) :
    ∃ out, stampsFromEdges (wireEdges fall bitTicks.toNat frames) bitTicks = some out ∧
      (out = wireStamps fall bitTicks.toNat frames ↔ Spaced bitTicks.toNat frames) := by
  have hb' : 2 ≤ bitTicks.toNat := UInt32.le_iff_toNat_le.mp hb
  obtain ⟨out, hout⟩ := (wireEdges_pairwise hexact).stampsFromEdges_isSome
    (show 0 < bitTicks.toNat by omega)
  have hscan : stampsFromEdges (wireEdges fall bitTicks.toNat frames) bitTicks =
      some (wireStamps fall bitTicks.toNat frames) ↔ Spaced bitTicks.toNat frames :=
    @scan_wire fall bitTicks.toNat _ frames _ [] rfl hb' hexact nofun (Nat.lt_succ_self _)
  refine ⟨out, hout, ?_⟩
  rw [← hscan, hout, Option.some.injEq]

end

/-! ### Two pings -/

/-- A second ping half a character behind the first, as a burst sends them. -/
def burst : List WireFrame :=
  [⟨36, [0x01, 0x03, 0x10, 0xB0, 0xFD], 90⟩, ⟨36, [0x02, 0x03, 0x10, 0xB3, 0xF7], 0⟩]

theorem burst_decodes :
    ∃ out, stampsFromEdges (wireEdges 1000 18 burst) 18 = some out ∧
      out = wireStamps 1000 18 burst := by
  obtain ⟨out, hout, hiff⟩ := @stamps_of_wire_iff 1000 burst 18 (by decide)
    ⟨by decide, by decide, trivial⟩
  have hspaced : Spaced 18 burst := by
    unfold Spaced
    decide
  exact ⟨out, hout, hiff.mpr hspaced⟩

/-- A break right behind a stop bit is stamped as a zero byte. -/
theorem back_to_back_break_is_stamped_as_a_byte :
    ¬ ∀ (fall : ℕ) (bitTicks : UInt32) (frames : List WireFrame), 4 ≤ bitTicks →
      Exact fall bitTicks.toNat frames →
        stampsFromEdges (wireEdges fall bitTicks.toNat frames) bitTicks =
          some (wireStamps fall bitTicks.toNat frames) := by
  intro hclaim
  have hstamps := hclaim 1000 4 [⟨8, [0x01], 0⟩, ⟨8, [], 0⟩] (by decide)
    ⟨by decide, by decide, trivial⟩
  exact absurd hstamps (by decide +kernel)

end OpenServo.Bench
