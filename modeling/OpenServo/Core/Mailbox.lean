import OpenServo.Core.Transition

/-!
# A mailbox of one slot

Requests of several kinds are posted to one slot, and a take empties it.  Every request is
to be taken unless a later one of its own kind supersedes it.  The slot serves them so
exactly in the runs where no request is posted right behind one of another kind.
-/

namespace OpenServo.Mailbox

open Transition

inductive Event (α : Type*) where
  | post (a : α)
  | take
  deriving DecidableEq, Repr

/-- What a run saw: a request posted, or what a take found. -/
inductive Mark (α : Type*) where
  | posted (a : α)
  | took (slot : Option α)
  deriving DecidableEq, Repr

variable {α κ : Type*}

def step (_ : Option α) : Event α → Option α
  | .post a => some a
  | .take => none

def mark (slot : Option α) : Event α → Mark α
  | .post a => .posted a
  | .take => .took slot

def marks : Option α → List (Event α) → List (Mark α)
  | _, [] => []
  | slot, event :: events => mark slot event :: marks (step slot event) events

theorem marks_append (slot : Option α) (left right : List (Event α)) :
    marks slot (left ++ right) = marks slot left ++ marks (run step slot left) right := by
  induction left generalizing slot with
  | nil => rfl
  | cons event left ih => exact congrArg (mark slot event :: ·) (ih (step slot event))

theorem marks_posts (slot : Option α) (xs : List α) :
    marks slot (xs.map .post) = xs.map .posted := by
  induction xs generalizing slot with
  | nil => rfl
  | cons x xs ih => exact congrArg (Mark.posted x :: ·) (ih (some x))

theorem run_posts (slot : Option α) (xs : List α) :
    run step slot (xs.map .post) = xs.getLast?.or slot := by
  induction xs generalizing slot with
  | nil => rfl
  | cons x xs ih =>
      rw [List.map_cons, run_cons, ih, step, List.getLast?_cons]
      cases xs.getLast? <;> rfl

/-- What lies in the slot was posted last. -/
theorem getLast_of_run {events : List (Event α)} {a : α}
    (h : run step none events = some a) : ∃ before, events = before ++ [.post a] := by
  obtain rfl | ⟨before, event, rfl⟩ := List.eq_nil_or_concat events
  · cases h
  · rw [List.concat_eq_append, run_append, run_cons, run_nil] at h
    cases event with
    | take => cases h
    | post b =>
        obtain rfl := Option.some.inj h
        exact ⟨before, List.concat_eq_append⟩

variable (kind : α → κ)

/-! ## Every request is served -/

/-- Every request posted is taken, or a later one of its kind supersedes it. -/
def Served (seen : List (Mark α)) : Prop :=
  ∀ before a after, seen = before ++ .posted a :: after →
    .took (some a) ∈ after ∨ ∃ b, .posted b ∈ after ∧ kind b = kind a

/-- Two posts in a row are of one kind. -/
def SameKind : Event α → Event α → Prop
  | .post a, .post b => kind a = kind b
  | _, _ => True

instance [DecidableEq κ] : ∀ x y : Event α, Decidable (SameKind kind x y)
  | .post a, .post b => inferInstanceAs (Decidable (kind a = kind b))
  | .post _, .take | .take, _ => .isTrue trivial

/-- No request is posted right behind one of another kind. -/
def Spaced (events : List (Event α)) : Prop := events.IsChain (SameKind kind)

instance [DecidableEq κ] (events : List (Event α)) : Decidable (Spaced kind events) :=
  inferInstanceAs (Decidable (events.IsChain (SameKind kind)))

variable {kind}

theorem served_of_spaced {events : List (Event α)} (h : Spaced kind events) (slot : Option α) :
    Served kind (marks slot (events ++ [.take])) := by
  induction events generalizing slot with
  | nil =>
      intro before a after hsplit
      cases before with
      | nil => cases hsplit
      | cons m before => cases before <;> cases hsplit
  | cons event events ih =>
      intro before a after hsplit
      cases before with
      | cons m before =>
          exact ih h.tail (step slot event) before a after (List.cons.inj hsplit).2
      | nil =>
          obtain ⟨hhead, hafter⟩ := List.cons.inj hsplit
          cases event with
          | take => cases hhead
          | post b =>
              obtain rfl := Mark.posted.inj hhead
              cases events with
              | nil =>
                  refine .inl ?_
                  rw [← hafter]
                  exact List.mem_cons_self
              | cons next events =>
                  cases next with
                  | take =>
                      refine .inl ?_
                      rw [← hafter]
                      exact List.mem_cons_self
                  | post c =>
                      refine .inr ⟨c, ?_, ?_⟩
                      · rw [← hafter]
                        exact List.mem_cons_self
                      · have hkind : kind b = kind c := (List.isChain_cons_cons.mp h).1
                        exact hkind.symm

/-- Requests not all of one kind have a last one of a kind other than those behind it. -/
theorem exists_last_other (xs : List α) :
    (∀ x ∈ xs, ∀ y ∈ xs, kind x = kind y) ∨
      ∃ ys x zs, xs = ys ++ x :: zs ∧ zs ≠ [] ∧ ∀ z ∈ zs, kind z ≠ kind x := by
  induction xs with
  | nil => exact .inl fun x hx => absurd hx List.not_mem_nil
  | cons first xs ih =>
      obtain hsame | ⟨ys, x, zs, rfl, hne, hother⟩ := ih
      · cases xs with
        | nil =>
            refine .inl fun x hx y hy => ?_
            rw [List.mem_singleton.mp hx, List.mem_singleton.mp hy]
        | cons next xs =>
            by_cases hkind : kind next = kind first
            · have hall : ∀ x ∈ first :: next :: xs, kind x = kind next := by
                intro x hx
                obtain rfl | hx := List.mem_cons.mp hx
                · exact hkind.symm
                · exact hsame x hx next List.mem_cons_self
              exact .inl fun x hx y hy => (hall x hx).trans (hall y hy).symm
            · refine .inr ⟨[], first, next :: xs, rfl, List.cons_ne_nil _ _, fun z hz hz' => ?_⟩
              exact hkind ((hsame next List.mem_cons_self z hz).trans hz')
      · exact .inr ⟨first :: ys, x, zs, rfl, hne, hother⟩

/-- Requests that follow each other without a take and are all served are of one kind. -/
theorem sameKind_of_served {slot : Option α} {events : List (Event α)} {xs : List α}
    (h : Served kind (marks slot (events ++ xs.map .post ++ [.take]))) :
    ∀ x ∈ xs, ∀ y ∈ xs, kind x = kind y := by
  obtain hsame | ⟨ys, x, zs, rfl, hne, hother⟩ := @exists_last_other _ _ kind xs
  · exact hsame
  · exfalso
    have hlast := List.getLast?_eq_some_getLast hne
    generalize zs.getLast hne = last at hlast
    have hseen : marks slot (events ++ (ys ++ x :: zs).map .post ++ [.take]) =
        (marks slot events ++ ys.map .posted) ++
          .posted x :: (zs.map .posted ++ [.took (some last)]) := by
      rw [marks_append, marks_append, marks_posts, run_append, run_posts, List.map_append,
        List.map_cons, List.getLast?_append, List.getLast?_cons, hlast]
      simp [marks, mark]
    obtain htaken | ⟨b, hposted, hkind⟩ := h _ _ _ hseen
    · rw [List.mem_append, List.mem_singleton] at htaken
      obtain hmem | heq := htaken
      · obtain ⟨_, -, hcase⟩ := List.mem_map.mp hmem
        cases hcase
      · cases heq
        exact hother x (List.mem_of_getLast? hlast) rfl
    · rw [List.mem_append, List.mem_singleton] at hposted
      obtain hmem | heq := hposted
      · obtain ⟨z, hz, hcase⟩ := List.mem_map.mp hmem
        cases hcase
        exact hother b hz hkind
      · cases heq

theorem spaced_append_posts {slot : Option α} {events : List (Event α)} {xs : List α}
    (hspaced : Spaced kind events)
    (h : Served kind (marks slot (events ++ xs.map .post ++ [.take]))) :
    Spaced kind (events ++ xs.map .post) := by
  have hsame := sameKind_of_served h
  refine List.IsChain.append hspaced ?_ ?_
  · rw [List.isChain_map]
    refine List.Pairwise.isChain (List.pairwise_of_forall_mem_list fun x hx y hy => ?_)
    exact hsame x hx y hy
  · intro event hlast next hnext
    obtain ⟨before, rfl⟩ := List.getLast?_eq_some_iff.mp hlast
    cases xs with
    | nil => cases hnext
    | cons y xs =>
        cases hnext
        cases event with
        | take => trivial
        | post x =>
            have hjoined : before ++ [.post x] ++ (y :: xs).map .post =
                before ++ (x :: y :: xs).map .post := by simp
            rw [hjoined] at h
            exact sameKind_of_served h x (by simp) y (by simp)

/-! ## The newest request of a kind -/

def Mark.posted? : Mark α → Option α
  | .posted a => some a
  | .took _ => none

def Mark.taken? : Mark α → Option α
  | .posted _ => none
  | .took slot => slot

variable [DecidableEq κ]

/-- The last request of kind `k` that `pick` finds. -/
def newest (kind : α → κ) (pick : Mark α → Option α) (k : κ) (seen : List (Mark α)) : Option α :=
  seen.foldl (fun last m => ((pick m).filter fun a => kind a = k).or last) none

theorem newest_concat (kind : α → κ) (pick : Mark α → Option α) (k : κ) (seen : List (Mark α))
    (m : Mark α) : newest kind pick k (seen ++ [m]) =
      ((pick m).filter fun a => kind a = k).or (newest kind pick k seen) := by
  rw [newest, List.foldl_append]
  rfl

/-- In a spaced run the newest request of a kind lies in the slot or was the last taken. -/
theorem newest_posted {events : List (Event α)} (h : Spaced kind events) (k : κ) :
    newest kind Mark.posted? k (marks none events) =
      ((run step none events).filter fun a => kind a = k).or
        (newest kind Mark.taken? k (marks none events)) := by
  induction events using List.reverseRecOn with
  | nil => rfl
  | append_singleton events event ih =>
      have hbefore := ih h.left_of_append
      have hmarks : marks none (events ++ [event]) =
          marks none events ++ [mark (run step none events) event] := marks_append _ _ _
      rw [hmarks, newest_concat, newest_concat, run_append, run_cons, run_nil]
      cases event with
      | take =>
          show none.or _ = none.or _
          rw [hbefore]
          rfl
      | post b =>
          show ((some b).filter _).or _ = ((some b).filter _).or (none.or _)
          by_cases hkind : kind b = k
          · rw [Option.filter_some, if_pos (decide_eq_true hkind)]
            rfl
          · rw [hbefore]
            cases hslot : run step none events with
            | none => rfl
            | some a =>
                obtain ⟨before, rfl⟩ := getLast_of_run hslot
                have hsame : kind a = kind b := by
                  rw [Spaced, List.append_assoc] at h
                  exact (List.isChain_append_cons_cons.mp h).2.1
                have hother : ¬ kind a = k := fun ha => hkind (hsame.symm.trans ha)
                rw [Option.filter_some, Option.filter_some, if_neg (by simpa using hkind),
                  if_neg (by simpa using hother)]

/-- Once the slot is drained, the newest request of each kind is the last taken of it. -/
theorem newest_taken {events : List (Event α)} (h : Spaced kind events) (k : κ) :
    newest kind Mark.taken? k (marks none (events ++ [.take])) =
      newest kind Mark.posted? k (marks none (events ++ [.take])) := by
  have hdrained : Spaced kind (events ++ [.take]) := by
    refine List.IsChain.append h (List.isChain_singleton _) fun x _ y hy => ?_
    obtain rfl := Option.some.inj hy
    cases x <;> trivial
  rw [newest_posted hdrained k, run_append]
  rfl

end OpenServo.Mailbox
