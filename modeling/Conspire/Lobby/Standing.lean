import Conspire.Lobby.Service

/-! The life of one session, apart from the lobby it is in: where it stands, what
is done in its name, and what every story of such deeds is like. -/
namespace Conspire.Sessions
open Session Transition

/-- Where a peer stands, with the socket and the room that matter there. -/
inductive Standing where
  | absent
  | built (socket : Socket) (room : RoomId)
  | dropped (socket : Socket)
  | added (socket : Socket) (room : RoomId)
  | opened (socket : Socket) (room : RoomId)
  | bound (socket : Socket)
  | losing (socket : Socket)
  | offline (since : TimePoint)
  | leased (socket : Socket)
  | departing (departure : Departure)
  | ended

inductive Deed where
  | opened
  | joined
  | authored
  | detached (time : TimePoint)
  | resumed
  | expired (time : TimePoint)
  | left
  deriving DecidableEq

/-- The ways from one standing to the next, each with its deed. -/
inductive Advance : Standing → Option Deed → Standing → Prop where
  | stay : Advance x none x
  | build : Advance .absent none (.built socket room)
  | drop : Advance (.built socket room) none (.dropped socket)
  | add : Advance (.built socket room) none (.added socket room)
  | opens : Advance (.added socket room) (some .opened) (.opened socket room)
  | join : Advance (.opened socket room) (some .joined) (.bound socket)
  | author : Advance (.bound socket) (some .authored) (.bound socket)
  | lose : Advance (.bound socket) none (.losing socket)
  | detach : Advance (.losing socket) (some (.detached time)) (.offline time)
  | resume : Advance (.offline since) (some .resumed) (.leased socket)
  | bind : Advance (.leased socket) none (.bound socket)
  | expire : since + gracePeriod ≤ now →
      Advance (.offline since) (some (.expired now)) (.departing .expired)
  | remove : Advance (.departing .expired) none (.departing .removed)
  | forget : Advance (.departing .removed) none (.departing .forgotten)
  | leave : Advance (.departing .forgotten) (some .left) (.departing .left)
  | finish : Advance (.departing .left) none .ended

/-- The life of a session. -/
def lifecycle : Machine Standing (Option Deed) where
  init x := x = .absent
  step := Advance

/-- What holds of every session's deeds, oldest first. -/
structure Lawful (story : List Deed) : Prop where
  joinedOnce : story.count .joined ≤ 1
  leftOnce : story.count .left ≤ 1
  joinedFirst : ∀ before deed after, story = before ++ deed :: after →
    deed ≠ .opened → deed ≠ .joined → .joined ∈ before
  leftLast : ∀ before after, story = before ++ .left :: after → after = []
  resumed : ∀ before after, story = before ++ .resumed :: after →
    ∃ earlier time, before = earlier ++ [.detached time]
  expired : ∀ before after now, story = before ++ .expired now :: after →
    ∃ earlier time, before = earlier ++ [.detached time] ∧ time + gracePeriod ≤ now

theorem split_snoc {story before after : List Deed} {last deed : Deed}
    (is : story ++ [last] = before ++ deed :: after) :
    after = [] ∧ before = story ∧ deed = last ∨
      ∃ rest, after = rest ++ [last] ∧ story = before ++ deed :: rest := by
  rcases List.eq_nil_or_concat after with rfl | ⟨rest, final, rfl⟩
  · obtain ⟨rfl, same⟩ := List.append_inj' is rfl
    exact .inl ⟨rfl, rfl, (List.singleton_inj.mp same).symm⟩
  · rw [List.concat_eq_append, ← List.cons_append, ← List.append_assoc] at is
    obtain ⟨rfl, same⟩ := List.append_inj' is rfl
    obtain rfl := List.singleton_inj.mp same
    exact .inr ⟨rest, List.concat_eq_append, rfl⟩

/-- One more deed, in keeping with the others. -/
theorem Lawful.snoc {story : List Deed} {last : Deed} (lawful : Lawful story)
    (staying : .left ∉ story) (joins : last = .joined → .joined ∉ story)
    (joined : last ≠ .opened → last ≠ .joined → .joined ∈ story)
    (resumes : last = .resumed → ∃ earlier time, story = earlier ++ [.detached time])
    (expires : ∀ now, last = .expired now →
      ∃ earlier time, story = earlier ++ [.detached time] ∧ time + gracePeriod ≤ now) :
    Lawful (story ++ [last]) where
  joinedOnce := by
    rw [List.count_append]
    by_cases same : last = .joined
    · simp [same, List.count_eq_zero_of_not_mem (joins same)]
    · simpa [List.count_singleton, same] using lawful.joinedOnce
  leftOnce := by
    rw [List.count_append, List.count_eq_zero_of_not_mem staying, List.count_singleton]
    split <;> omega
  joinedFirst := by
    intro before deed after is notOpened notJoined
    rcases split_snoc is with ⟨_, rfl, rfl⟩ | ⟨rest, _, is⟩
    · exact joined notOpened notJoined
    · exact lawful.joinedFirst before deed rest is notOpened notJoined
  leftLast := by
    intro before after is
    rcases split_snoc is with ⟨rfl, _, _⟩ | ⟨rest, _, rfl⟩
    · rfl
    · exact absurd (by simp) staying
  resumed := by
    intro before after is
    rcases split_snoc is with ⟨_, rfl, rfl⟩ | ⟨rest, _, is⟩
    · exact resumes rfl
    · exact lawful.resumed before rest is
  expired := by
    intro before after now is
    rcases split_snoc is with ⟨_, rfl, rfl⟩ | ⟨rest, _, is⟩
    · exact expires now rfl
    · exact lawful.expired before rest now is

/-- What has been done where a session stands. -/
def Standing.Told (story : List Deed) : Standing → Prop
  | .absent | .built .. | .dropped _ | .added .. => story = []
  | .opened .. => story = [.opened]
  | .bound _ | .losing _ | .leased _ => .joined ∈ story ∧ .left ∉ story
  | .offline since =>
    (.joined ∈ story ∧ .left ∉ story) ∧ ∃ earlier, story = earlier ++ [.detached since]
  | .departing .left | .ended => .joined ∈ story
  | .departing _ => .joined ∈ story ∧ .left ∉ story

theorem lifecycle_lawful (run : lifecycle.Run deeds x) :
    Lawful (deeds.filterMap id) ∧ x.Told (deeds.filterMap id) := by
  induction run with
  | start initial =>
    cases initial
    exact ⟨by constructor <;> simp, rfl⟩
  | next _ step ih =>
    obtain ⟨lawful, told⟩ := ih
    rw [List.filterMap_append]
    cases step with
    | stay | build | drop | add | lose | bind | remove | forget =>
      simpa using ⟨lawful, told⟩
    | finish => simpa using ⟨lawful, told⟩
    | opens =>
      obtain told : _ = [] := told
      rw [told]
      exact ⟨Lawful.snoc (by constructor <;> simp) (by simp) (by simp) (by simp) (by simp) (by simp),
        rfl⟩
    | join =>
      obtain told : _ = [_] := told
      rw [told] at lawful ⊢
      exact ⟨lawful.snoc (by simp) (by simp) (by simp) (by simp) (by simp), by simp [Standing.Told]⟩
    | author =>
      exact ⟨lawful.snoc told.2 (by simp) (fun _ _ => told.1) (by simp) (by simp),
        by simpa [Standing.Told] using told⟩
    | detach =>
      exact ⟨lawful.snoc told.2 (by simp) (fun _ _ => told.1) (by simp) (by simp),
        by simpa [Standing.Told] using told⟩
    | resume =>
      obtain ⟨told, earlier, last⟩ := told
      exact ⟨lawful.snoc told.2 (by simp) (fun _ _ => told.1) (fun _ => ⟨earlier, _, last⟩) (by simp),
        by simpa [Standing.Told] using told⟩
    | expire late =>
      obtain ⟨told, earlier, last⟩ := told
      refine ⟨lawful.snoc told.2 (by simp) (fun _ _ => told.1) (by simp) ?_,
        by simpa [Standing.Told] using told⟩
      rintro now ⟨⟩
      exact ⟨earlier, _, last, late⟩
    | leave =>
      exact ⟨lawful.snoc told.2 (by simp) (fun _ _ => told.1) (by simp) (by simp),
        List.mem_append_left _ told.1⟩

/-- A session whose hello has got past its announcement has joined, once. -/
theorem Standing.Told.joined {story : List Deed} {x : Standing} (told : x.Told story)
    (opened : .opened ∈ story) (past : ∀ socket room, x ≠ .opened socket room) :
    .joined ∈ story := by
  cases x with
  | opened socket room => exact absurd rfl (past socket room)
  | absent | built | dropped | added =>
    obtain told : story = [] := told
    simp [told] at opened
  | bound | losing | leased => exact told.1
  | offline => exact told.1.1
  | ended => exact told
  | departing departure => cases departure <;> first | exact told.1 | exact told

end Conspire.Sessions
