import OpenServo.Bus.Resolver
import OpenServo.Core.Transition

/-!
# Frames out of a clean stream

Back-to-back frames land in the ring byte by byte while the resolver looks at
any times.  As long as the unread bytes do not lap and the frontier is not given
up, the resolver reports exactly the frames of the stream, in order, each with
its place in the ring, and announces a frame at most once before it.
-/

namespace OpenServo.Bus

open Transition

/-- A frame as the stream carries it: a break, a legal LEN, and as many bytes
as LEN says. -/
def WellFormed (frame : List Byte) : Prop :=
  frame[0]? = some breakRingByte ∧
    ∃ len, frame[2]? = some len ∧ 3 ≤ len ∧ frame.length = footprint len

/-- A receiver fed from a stream: the resolver, its ring, the bytes landed so
far and everything the resolver reported. -/
structure Feed where
  framer : Framer
  ring : Ring
  landed : ℕ
  outs : List FramerOut

inductive FeedAct where
  | land
  | look (now tpb : UInt32)
  deriving DecidableEq, Repr

namespace Feed

/-- The next byte of the stream lands, or the resolver looks; every frame it
reports verifies. -/
def step (stream : List Byte) (feed : Feed) : FeedAct → Feed
  | .land =>
      match stream[feed.landed]? with
      | some b => { feed with ring := feed.ring.push b, landed := feed.landed + 1 }
      | none => feed
  | .look now tpb =>
      let (framer, out) := feed.framer.resolve feed.ring now tpb
      let framer :=
        match out with
        | .frame _ => framer.onFrameVerified
        | _ => framer
      { feed with framer := framer, outs := feed.outs ++ [out] }

/-- The unread bytes stay short of a full lap, and the resolver looks before
the frontier starves. -/
def Kept (feed : Feed) : FeedAct → Prop
  | .land => dist feed.ring.cursor feed.framer.anchor feed.ring.len + 1 < feed.ring.len
  | .look now tpb => ¬ feed.framer.Starved feed.ring.cursor now tpb

instance (feed : Feed) : ∀ act, Decidable (feed.Kept act)
  | .land => inferInstanceAs (Decidable (_ < _))
  | .look _ _ => inferInstanceAs (Decidable (¬ _))

/-- A receiver whose ladder stands at the cursor. -/
def start (ring : Ring) : Feed := ⟨Framer.new.resync ring.cursor, ring, 0, []⟩

end Feed

/-! ## What is to be reported -/

/-- Anchor and footprint of each frame, from `base` on. -/
def places (ringLen : ℕ) : ℕ → List (List Byte) → List (ℕ × ℕ)
  | _, [] => []
  | base, frame :: frames =>
      (base % ringLen, frame.length) :: places ringLen (base + frame.length) frames

/-- Follow a report: the places still to come, and whether the first of them
has been announced. -/
def follow : List (ℕ × ℕ) × Bool → FramerOut → Option (List (ℕ × ℕ) × Bool)
  | state, .none => some state
  | state, .wait _ => some state
  | (place :: rest, false), .covered span _ =>
      if (span.anchor, span.footprint) = place then some (place :: rest, true) else none
  | (place :: rest, _), .frame span =>
      if (span.anchor, span.footprint) = place then some (rest, false) else none
  | _, _ => none

theorem follow_concat (outs : List FramerOut) (out : FramerOut) (state : List (ℕ × ℕ) × Bool) :
    (outs ++ [out]).foldlM follow state = (outs.foldlM follow state).bind (follow · out) := by
  rw [List.foldlM_append]
  cases outs.foldlM follow state with
  | none => rfl
  | some state => simp

/-- The places of the frames reported. -/
def reported (outs : List FramerOut) : List (ℕ × ℕ) :=
  outs.filterMap fun out =>
    match out with
    | .frame span => some (span.anchor, span.footprint)
    | _ => none

/-- A followed report names the places up to where it got. -/
theorem reported_of_follow {outs : List FramerOut} {todo rest : List (ℕ × ℕ)} {told told' : Bool}
    (h : outs.foldlM follow (todo, told) = some (rest, told')) : todo = reported outs ++ rest := by
  induction outs generalizing todo told with
  | nil =>
      obtain ⟨rfl, -⟩ := Prod.mk.inj (Option.some.inj h)
      rfl
  | cons out outs ih =>
      rw [List.foldlM_cons] at h
      obtain ⟨⟨todo', told''⟩, hout, hrest⟩ := Option.bind_eq_some_iff.mp h
      have htail := ih hrest
      cases out with
      | none =>
          obtain ⟨rfl, -⟩ := Prod.mk.inj (Option.some.inj hout)
          exact htail
      | wait due =>
          obtain ⟨rfl, -⟩ := Prod.mk.inj (Option.some.inj hout)
          exact htail
      | covered span due =>
          cases todo with
          | nil => cases told <;> cases hout
          | cons place todo =>
              cases told with
              | true => cases hout
              | false =>
                  simp only [follow] at hout
                  split at hout
                  · obtain ⟨rfl, -⟩ := Prod.mk.inj (Option.some.inj hout)
                    exact htail
                  · cases hout
      | frame span =>
          cases todo with
          | nil => cases told <;> cases hout
          | cons place todo =>
              simp only [follow] at hout
              split at hout
              · rename_i hplace
                obtain ⟨rfl, -⟩ := Prod.mk.inj (Option.some.inj hout)
                rw [← hplace, htail]
                rfl
              · cases hout

/-! ## Where a frame lies in the stream -/

/-- The bytes before frame `m`. -/
def offset (frames : List (List Byte)) (m : ℕ) : ℕ := (frames.take m).flatten.length

theorem offset_succ {frames : List (List Byte)} {m : ℕ} {frame : List Byte}
    (h : frames[m]? = some frame) : offset frames (m + 1) = offset frames m + frame.length := by
  rw [offset, offset, List.take_add_one, h]
  simp

theorem offset_length (frames : List (List Byte)) :
    offset frames frames.length = frames.flatten.length := by
  rw [offset, List.take_length]

theorem getElem?_flatten {frames : List (List Byte)} {m i : ℕ} {frame : List Byte}
    (h : frames[m]? = some frame) (hi : i < frame.length) :
    frames.flatten[offset frames m + i]? = frame[i]? := by
  obtain ⟨hm, rfl⟩ := List.getElem?_eq_some_iff.mp h
  have hflat : frames.flatten =
      (frames.take m).flatten ++ (frames[m] ++ (frames.drop (m + 1)).flatten) := by
    conv_lhs => rw [← List.take_append_drop m frames, List.flatten_append,
      List.drop_eq_getElem_cons hm, List.flatten_cons]
  rw [hflat, offset, List.getElem?_append_right (by omega), Nat.add_sub_cancel_left,
    List.getElem?_append_left hi]

theorem drop_places (ringLen base : ℕ) (frames : List (List Byte)) (m : ℕ) :
    (places ringLen base frames).drop m =
      places ringLen (base + offset frames m) (frames.drop m) := by
  induction m generalizing base frames with
  | zero => simp [offset]
  | succ m ih =>
      cases frames with
      | nil => simp [places]
      | cons frame frames =>
          simp only [places, List.drop_succ_cons, ih]
          congr 1
          simp [offset, Nat.add_assoc]

theorem length_places (ringLen base : ℕ) (frames : List (List Byte)) :
    (places ringLen base frames).length = frames.length := by
  induction frames generalizing base with
  | nil => rfl
  | cons frame frames ih => simp [places, ih]

/-! ## The ring holds the unread bytes -/

/-- After `m` reported frames: the ladder stands at frame `m`, the ring holds
the unread bytes, and the report so far is the one to be followed. -/
structure InStep (frames : List (List Byte)) (base ringLen m : ℕ) (told : Bool) (feed : Feed) :
    Prop where
  len_eq : feed.ring.len = ringLen
  count : m ≤ frames.length
  stands : Stands feed.framer feed.ring base (offset frames m) feed.landed
  landed_le : feed.landed ≤ frames.flatten.length
  unread : ∀ i b, offset frames m ≤ i → i < feed.landed → frames.flatten[i]? = some b →
    feed.ring.byteAt (base + i) = b
  covered : feed.framer.frontier.covered = told
  begun : told = true → offset frames m < feed.landed
  followed : feed.outs.foldlM follow (places ringLen base frames, false) =
    some ((places ringLen base frames).drop m, told)

namespace InStep

variable {frames : List (List Byte)} {base ringLen m : ℕ} {told : Bool} {feed : Feed}

theorem land (h : InStep frames base ringLen m told feed) (hkept : feed.Kept .land) :
    InStep frames base ringLen m told (feed.step frames.flatten .land) := by
  simp only [Feed.step]
  cases hbyte : frames.flatten[feed.landed]? with
  | none => exact h
  | some b =>
      have hlap : feed.landed + 1 < offset frames m + feed.ring.len := by
        have hbehind := h.stands.behind
        simp only [Feed.Kept, h.stands.dist] at hkept
        omega
      have hlt : feed.landed < frames.flatten.length := (List.getElem?_eq_some_iff.mp hbyte).1
      refine ⟨h.len_eq, h.count, ⟨h.stands.anchor, ?_, ?_, hlap⟩, hlt, ?_, h.covered, ?_,
        h.followed⟩
      · show (feed.ring.push b).cursor = _
        rw [Ring.cursor_push, h.stands.cursor, Nat.mod_add_mod, Ring.len_push, Nat.add_assoc]
      · exact Nat.le_succ_of_le h.stands.behind
      · intro i b' hle hi hb'
        show (feed.ring.push b).byteAt (base + i) = b'
        rw [Ring.byteAt_push, h.stands.cursor]
        by_cases hlast : i = feed.landed
        · subst hlast
          rw [if_pos rfl]
          exact Option.some.inj (hbyte.symm.trans hb')
        · have hi : i < feed.landed := by
            simp only at hi
            omega
          rw [if_neg (mod_ne_of_lt (by omega) (by omega))]
          exact h.unread i b' hle hi hb'
      · intro htold
        exact Nat.lt_succ_of_lt (h.begun htold)

/-- A byte of frame `m` that has landed. -/
theorem byteAt_frame (h : InStep frames base ringLen m told feed) {frame : List Byte}
    (hframe : frames[m]? = some frame) {i : ℕ} {b : Byte} (hi : frame[i]? = some b)
    (hlanded : offset frames m + i < feed.landed) :
    feed.ring.byteAt (feed.framer.anchor + i) = b := by
  rw [h.stands.byteAt, Nat.add_assoc]
  apply h.unread _ b (by omega) hlanded
  rw [getElem?_flatten hframe (List.getElem?_eq_some_iff.mp hi).1, hi]

theorem exists_frame (h : InStep frames base ringLen m told feed)
    (hunread : offset frames m < feed.landed) : ∃ frame, frames[m]? = some frame := by
  have hm : m < frames.length := by
    by_contra hge
    have heq : m = frames.length := by
      have hcount := h.count
      omega
    have hle := h.landed_le
    rw [heq, offset_length] at hunread
    omega
  exact ⟨_, List.getElem?_eq_getElem hm⟩

/-- The ladder finds the frame it stands at. -/
theorem plausibleAt (h : InStep frames base ringLen m told feed)
    (hframes : ∀ frame ∈ frames, WellFormed frame) (hunread : offset frames m < feed.landed) :
    Framer.PlausibleAt feed.ring feed.framer.anchor (feed.landed - offset frames m) := by
  obtain ⟨frame, hframe⟩ := h.exists_frame hunread
  obtain ⟨hbreak, len, hlen, hgeometry, -⟩ := hframes frame (List.mem_of_getElem? hframe)
  refine ⟨h.byteAt_frame hframe hbreak (by omega), ?_⟩
  by_cases hshort : feed.landed - offset frames m < headerSpanBytes
  · exact .inl hshort
  · simp only [headerSpanBytes, Header.size] at hshort
    rw [h.byteAt_frame hframe hlen (by omega)]
    exact .inr hgeometry

/-- Once its LEN byte has landed the frame claims its own length. -/
theorem claimed (h : InStep frames base ringLen m told feed)
    (hframes : ∀ frame ∈ frames, WellFormed frame) {frame : List Byte}
    (hframe : frames[m]? = some frame)
    (hheader : headerSpanBytes ≤ feed.landed - offset frames m) :
    Framer.claimed feed.ring feed.framer.anchor = frame.length := by
  obtain ⟨-, len, hlen, -, hlength⟩ := hframes frame (List.mem_of_getElem? hframe)
  simp only [headerSpanBytes, Header.size] at hheader
  rw [Framer.claimed, h.byteAt_frame hframe hlen (by omega), hlength]

/-- The next place to report is the ladder's. -/
theorem next_place (h : InStep frames base ringLen m told feed) {frame : List Byte}
    (hframe : frames[m]? = some frame) :
    (places ringLen base frames).drop m =
      (feed.framer.anchor, frame.length) :: (places ringLen base frames).drop (m + 1) := by
  obtain ⟨hm, rfl⟩ := List.getElem?_eq_some_iff.mp hframe
  rw [drop_places, drop_places, List.drop_eq_getElem_cons hm, places, h.stands.anchor, h.len_eq,
    offset_succ hframe, Nat.add_assoc]

/-- The resolver moved within frame `m` or stayed where it was. -/
theorem stay (h : InStep frames base ringLen m told feed) {frontier : Frontier} {told' : Bool}
    {out : FramerOut} (hcovered : frontier.covered = told')
    (hbegun : told' = true → offset frames m < feed.landed)
    (hfollow : follow ((places ringLen base frames).drop m, told) out =
      some ((places ringLen base frames).drop m, told')) :
    InStep frames base ringLen m told'
      { feed with
        framer := { feed.framer with frontier := frontier }
        outs := feed.outs ++ [out] } := by
  refine ⟨h.len_eq, h.count, ⟨h.stands.anchor, h.stands.cursor, h.stands.behind, h.stands.lap⟩,
    h.landed_le, h.unread, hcovered, hbegun, ?_⟩
  rw [follow_concat, h.followed]
  exact hfollow

/-- The resolver reported frame `m` and stands at the next one. -/
theorem pass (h : InStep frames base ringLen m told feed)
    {frame : List Byte} (hframe : frames[m]? = some frame)
    (hwhole : offset frames m + frame.length ≤ feed.landed) (now : UInt32) :
    InStep frames base ringLen (m + 1) false
      { feed with
        framer := { feed.framer with
          hunting := false
          anchor := ringWrap (feed.framer.anchor + frame.length) feed.ring.len
          frontier := .idle }
        outs := feed.outs ++ [.frame ⟨feed.framer.anchor, frame.length, now⟩] } := by
  have hoffset := offset_succ hframe
  have hlap := h.stands.lap
  refine ⟨h.len_eq, (List.getElem?_eq_some_iff.mp hframe).1, ⟨?_, h.stands.cursor, ?_, ?_⟩,
    h.landed_le, ?_, rfl, ?_, ?_⟩
  · show ringWrap (feed.framer.anchor + frame.length) feed.ring.len = _
    rw [feed.ring.ringWrap_len, h.stands.anchor, Nat.mod_add_mod, hoffset, Nat.add_assoc]
  · show offset frames (m + 1) ≤ feed.landed
    omega
  · show feed.landed < offset frames (m + 1) + feed.ring.len
    omega
  · intro i b hle hi hb
    exact h.unread i b (by omega) hi hb
  · intro htold
    cases htold
  · rw [follow_concat, h.followed, h.next_place hframe]
    cases told <;> simp [follow]

/-- One look: the next frame is reported if it has landed whole, and otherwise
at most announced. -/
theorem look (h : InStep frames base ringLen m told feed)
    (hframes : ∀ frame ∈ frames, WellFormed frame) {now tpb : UInt32}
    (hkept : feed.Kept (.look now tpb)) :
    (∃ told', InStep frames base ringLen m told' (feed.step frames.flatten (.look now tpb)) ∧
        ∀ frame, frames[m]? = some frame → feed.landed < offset frames m + frame.length) ∨
      InStep frames base ringLen (m + 1) false (feed.step frames.flatten (.look now tpb)) := by
  have hresolve := feed.framer.resolve_cases feed.ring now tpb
  rw [h.stands.dist] at hresolve
  have hbehind := h.stands.behind
  have hshort : offset frames m = feed.landed →
      ∀ frame, frames[m]? = some frame → feed.landed < offset frames m + frame.length := by
    intro heq frame hframe
    obtain ⟨-, len, hlen, -, -⟩ := hframes frame (List.mem_of_getElem? hframe)
    have hpos := (List.getElem?_eq_some_iff.mp hlen).1
    omega
  generalize hout : feed.framer.resolve feed.ring now tpb = out at hresolve
  simp only [Feed.step, hout]
  cases hresolve with
  | caughtUp hzero =>
      have htold : told = false := by
        by_contra hne
        have hbegun := h.begun (Bool.eq_true_of_not_eq_false hne)
        omega
      refine .inl ⟨false, h.stay rfl ?_ ?_, hshort (by omega)⟩
      · intro hfalse
        cases hfalse
      · rw [htold]
        rfl
  | scanned hpos hskip =>
      exact absurd (h.plausibleAt hframes (by omega)) (hskip 0 hpos)
  | spent n hn hlt hskip =>
      exact absurd (h.plausibleAt hframes (by omega)) (hskip 0 hn)
  | candidate n _ hlt hskip hplaus hend =>
      obtain rfl : n = 0 := by
        by_contra hne
        exact hskip 0 (by omega) (h.plausibleAt hframes (by omega))
      have hunread : offset frames m < feed.landed := by omega
      obtain ⟨frame, hframe⟩ := h.exists_frame hunread
      have hsame : feed.framer.skipped feed.ring 0 = feed.framer := rfl
      rw [hsame, Nat.sub_zero] at hend
      have hpart : feed.framer.Partial feed.ring (feed.landed - offset frames m) →
          ∀ frame', frames[m]? = some frame' →
            feed.landed < offset frames m + frame'.length := by
        intro hmissing frame' hframe'
        obtain rfl := Option.some.inj (hframe.symm.trans hframe')
        obtain ⟨-, len, hlen, hgeometry, hlength⟩ := hframes frame (List.mem_of_getElem? hframe)
        have hlow := UInt8.le_iff_toNat_le.mp hgeometry
        simp only [footprint, UInt8.reduceToNat] at hlength hlow
        by_cases hheader : feed.landed - offset frames m < headerSpanBytes
        · simp only [headerSpanBytes, Header.size] at hheader
          omega
        · have hclaim := h.claimed hframes hframe (Nat.le_of_not_lt hheader)
          obtain hless | hless := hmissing
          · exact absurd hless hheader
          · omega
      cases hend with
      | parked due hmissing hstarved =>
          refine .inl ⟨told, h.stay ?_ h.begun rfl, hpart hmissing⟩
          simp only [Frontier.advance]
          split
          · exact h.covered
          · split <;> exact h.covered
      | died drops hmissing hstarved => exact absurd hstarved hkept
      | covered packetEnd hmissing hheader hnew =>
          have htold : told = false := h.covered.symm.trans hnew
          refine .inl ⟨true, h.stay rfl (fun _ => hunread) ?_, hpart hmissing⟩
          rw [h.next_place hframe, htold, h.claimed hframes hframe hheader]
          simp [follow]
      | whole hheader hclaimed =>
          have hclaim := h.claimed hframes hframe hheader
          rw [hclaim] at hclaimed
          rw [hclaim]
          exact .inr (h.pass hframe (by omega) now)

theorem reported_eq (h : InStep frames base ringLen m told feed) :
    reported feed.outs = (places ringLen base frames).take m := by
  have happend := reported_of_follow h.followed
  have hsplit := List.take_append_drop m (places ringLen base frames)
  exact (List.append_cancel_right (hsplit.trans happend)).symm

end InStep

/-- A run of the receiver stays in step with the stream. -/
theorem exists_inStep {frames : List (List Byte)} (hframes : ∀ frame ∈ frames, WellFormed frame)
    {ringLen base m : ℕ} {told : Bool} {feed : Feed} {acts : List FeedAct}
    (h : InStep frames base ringLen m told feed)
    (hkept : Meets (Feed.step frames.flatten) Feed.Kept feed acts) :
    ∃ m' told', m ≤ m' ∧
      InStep frames base ringLen m' told' (run (Feed.step frames.flatten) feed acts) := by
  induction acts generalizing feed m told with
  | nil => exact ⟨m, told, le_rfl, h⟩
  | cons act acts ih =>
      obtain ⟨hact, hrest⟩ := hkept
      cases act with
      | land => exact ih (h.land hact) hrest
      | look now tpb =>
          obtain ⟨told', hstay, -⟩ | hpass := h.look hframes hact
          · exact ih hstay hrest
          · obtain ⟨m', told', hle, hin⟩ := ih hpass hrest
            exact ⟨m', told', by omega, hin⟩

/-- Looks at a stream that has landed whole report one frame each. -/
theorem inStep_looks {frames : List (List Byte)} (hframes : ∀ frame ∈ frames, WellFormed frame)
    {ringLen base m : ℕ} {told : Bool} {feed : Feed} {looks : List FeedAct}
    (h : InStep frames base ringLen m told feed)
    (hlooks : ∀ act ∈ looks, ∃ now tpb, act = .look now tpb)
    (hlanded : feed.landed = frames.flatten.length)
    (hkept : Meets (Feed.step frames.flatten) Feed.Kept feed looks)
    (hmany : frames.length ≤ m + looks.length) :
    ∃ told', InStep frames base ringLen frames.length told'
      (run (Feed.step frames.flatten) feed looks) := by
  induction looks generalizing feed m told with
  | nil =>
      obtain rfl : m = frames.length := by
        have hcount := h.count
        simp only [List.length_nil] at hmany
        omega
      exact ⟨told, h⟩
  | cons act looks ih =>
      obtain ⟨hact, hrest⟩ := hkept
      obtain ⟨⟨now, tpb, rfl⟩, hmore⟩ := List.forall_mem_cons.mp hlooks
      have hlanded' : (feed.step frames.flatten (.look now tpb)).landed =
          frames.flatten.length := hlanded
      simp only [List.length_cons] at hmany
      obtain ⟨told', hstay, hmissing⟩ | hpass := h.look hframes hact
      · -- everything has landed, so nothing but the end of the stream is missing
        have hend : frames.length ≤ m := by
          by_contra hlt
          have hm : m < frames.length := by omega
          have hframe : frames[m]? = some frames[m] := List.getElem?_eq_getElem hm
          have hshort := hmissing _ hframe
          have hle : offset frames (m + 1) ≤ frames.flatten.length := by
            rw [offset]
            exact (List.take_sublist _ _).flatten.length_le
          rw [offset_succ hframe] at hle
          omega
        exact ih hstay hmore hlanded' hrest (by omega)
      · exact ih hpass hmore hlanded' hrest (by omega)

theorem inStep_start (frames : List (List Byte)) (ring : Ring) :
    InStep frames ring.cursor ring.len 0 false (Feed.start ring) := by
  have hcursor : ring.cursor = ring.cursor % ring.len :=
    (Nat.mod_eq_of_lt ring.cursor_lt_len).symm
  refine ⟨rfl, Nat.zero_le _, ⟨?_, ?_, ?_, ?_⟩, Nat.zero_le _, ?_, rfl, ?_, ?_⟩
  · exact hcursor
  · exact hcursor
  · exact Nat.zero_le _
  · show 0 < offset frames 0 + ring.len
    have hpos := ring.len_pos
    omega
  · intro i b _ hi
    exact absurd hi (Nat.not_lt_zero i)
  · intro hfalse
    cases hfalse
  · rfl

/-- In every run that neither laps nor starves, what the resolver reports
follows the frames of the stream: the frames reported are the first `m`, in
order, each with its anchor and footprint, each announced at most once and only
before it; and once the stream has landed, looking as often as there are frames
reports them all. -/
theorem resolve_reports_the_stream {frames : List (List Byte)}
    (hframes : ∀ frame ∈ frames, WellFormed frame) (ring : Ring) {acts : List FeedAct}
    (hkept : Meets (Feed.step frames.flatten) Feed.Kept (Feed.start ring) acts) :
    let feed := run (Feed.step frames.flatten) (Feed.start ring) acts
    let todo := places ring.len ring.cursor frames
    (∃ m told, m ≤ frames.length ∧ reported feed.outs = todo.take m ∧
      feed.outs.foldlM follow (todo, false) = some (todo.drop m, told)) ∧
    ∀ looks : List FeedAct, (∀ act ∈ looks, ∃ now tpb, act = .look now tpb) →
      feed.landed = frames.flatten.length → frames.length ≤ looks.length →
      Meets (Feed.step frames.flatten) Feed.Kept feed looks →
        reported (run (Feed.step frames.flatten) feed looks).outs = todo := by
  intro feed todo
  obtain ⟨m, told, -, hin⟩ := exists_inStep hframes (inStep_start frames ring) hkept
  constructor
  · exact ⟨m, told, hin.count, hin.reported_eq, hin.followed⟩
  · intro looks hlooks hlanded hmany hmeets
    obtain ⟨told', hend⟩ := inStep_looks hframes hin hlooks hlanded hmeets (by omega)
    rw [hend.reported_eq, ← length_places ring.len ring.cursor frames, List.take_length]

instance (frame : List Byte) : Decidable (WellFormed frame) :=
  match hlen : frame[2]? with
  | none => isFalse fun h => by
      obtain ⟨-, len, hsome, -⟩ := h
      cases hlen.symm.trans hsome
  | some len =>
      decidable_of_iff
          (frame[0]? = some breakRingByte ∧ 3 ≤ len ∧ frame.length = footprint len) <| by
        constructor
        · rintro ⟨hbreak, hgeometry, hlength⟩
          exact ⟨hbreak, len, hlen, hgeometry, hlength⟩
        · rintro ⟨hbreak, len', hlen', hgeometry, hlength⟩
          obtain rfl := Option.some.inj (hlen.symm.trans hlen')
          exact ⟨hbreak, hgeometry, hlength⟩

/-- Two frames landing in two pieces with a look between. -/
theorem resolve_reports_two_frames :
    let frames : List (List Byte) := [[0, 1, 3, 16, 9, 9], [0, 2, 4, 17, 5, 9, 9]]
    let ring := Ring.fresh 9 le_rfl (by decide)
    let acts := List.replicate 5 FeedAct.land ++ [.look 10 1] ++ List.replicate 8 .land
    let looks := [FeedAct.look 20 1, .look 20 1]
    reported (run (Feed.step frames.flatten)
      (run (Feed.step frames.flatten) (Feed.start ring) acts) looks).outs =
        places ring.len ring.cursor frames := by
  intro frames ring acts looks
  have hframes : ∀ frame ∈ frames, WellFormed frame := by decide
  have hkept : Meets (Feed.step frames.flatten) Feed.Kept (Feed.start ring) acts := by
    decide +kernel
  have hlooks : ∀ act ∈ looks, ∃ now tpb, act = .look now tpb := by simp [looks]
  have hmore : Meets (Feed.step frames.flatten) Feed.Kept
      (run (Feed.step frames.flatten) (Feed.start ring) acts) looks := by
    decide +kernel
  have hlanded : (run (Feed.step frames.flatten) (Feed.start ring) acts).landed =
      frames.flatten.length := by
    decide +kernel
  exact (resolve_reports_the_stream hframes ring hkept).2 looks hlooks hlanded le_rfl hmore

end OpenServo.Bus
