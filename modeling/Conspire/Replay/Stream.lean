import Conspire.Replay.Frames

/-! The stream of a bound transport. Of the messages that matter to replay, a
step appends at most one to it, and that one was posted for this transport. -/
namespace Conspire.Replay
open Session Transition

/-- The messages replay is about. -/
def notable (message : MessageDto) : Bool :=
  durableCode message.code || message.code = some .sessionReady

def Server.feed (s : Server) (member : PeerId) (socket : Socket) : List MessageDto :=
  (s.stream member socket).filter notable

theorem seqs_filter_notable (messages : List MessageDto) :
    seqs (messages.filter notable) = seqs messages := by
  unfold seqs
  rw [List.filterMap_filter]
  congr 1
  funext message
  cases known : notable message with
  | true => simp
  | false =>
    simp only [notable, Bool.or_eq_false_iff] at known
    simp [durableSeq, known.1]

/-- How the feed of a bound transport changes in a step. -/
inductive FeedChange (l : Label) (p : PeerId) (T : Socket) (before after : List MessageDto) : Prop where
  | kept : (∀ f, l = .post p f → f.socket ≠ T) → after = before → FeedChange l p T before after
  | grown {f : OutboundFrame} : l = .post p f → f.socket = T →
      after = before ++ [f.payload].filter notable → FeedChange l p T before after

section Steps
variable {s t u : Server} {p member : PeerId} {T : Socket}

/-- An invalidated transport stays so. -/
theorem invalidated_step (step : Step config written s l t) (valid : t.invalidated T = false) :
    s.invalidated T = false := by
  have set : ∀ {u : Server} {socket : Option Socket}, (u.invalidate socket).invalidated T = false →
      u.invalidated T = false := by
    intro u socket valid
    cases socket with
    | none => exact valid
    | some other =>
      simp only [Server.invalidate, Function.update_apply] at valid
      split at valid
      · contradiction
      · exact valid
  cases step with
  | publish | welcome | goodbye | members | skip | capture | finish | welcomed | join | register
  | resume | refuse | advance | beginSend | take | check | drop | write | apiError | detach
  | unlease | expire | remove => exact valid
  | push | endSend | answer => exact (post_invalidated valid).1
  | bind => exact set (u := s.setPeer _ _) valid

theorem feed_congr (wire : t.wire = s.wire) (frames : t.frames = s.frames) :
    t.feed p T = s.feed p T := by
  simp only [Server.feed, Server.stream, Server.unsent, wire, frames]

/-- A post reaches the feed of the transport it was captured from. -/
theorem feed_post (wire : u.wire = s.wire) (frames : u.frames = s.frames)
    (transport : u.transport = s.transport) (generation : u.generation = s.generation)
    (bound : s.transport p = some (some T)) (valid : (u.post written member f).invalidated T = false)
    (issued : s.control.Issued member f.socket f.generation) :
    FeedChange (.post member f) p T (s.feed p T) ((u.post written member f).feed p T) := by
  have feed : (u.post written member f).feed p T = s.feed p T ++
      (((if p = member ∧ u.overflows written member f = false then [f] else []).filter
        (·.socket = T)).map (·.payload)).filter notable := by
    simp only [Server.feed, Server.stream, Server.unsent, frames_post, post_fields, wire, frames,
      List.filter_append, List.map_append, List.append_assoc]
  by_cases here : member = p ∧ f.socket = T
  · obtain ⟨rfl, rfl⟩ := here
    refine .grown rfl rfl ?_
    rw [feed]
    have accepted : u.overflows written member f = false := by
      by_contra refused
      obtain ⟨_, _, _, _, current⟩ := issued
      have := (post_invalidated valid).2 (by simpa using refused) (transport ▸ bound)
      exact this (generation ▸ current bound)
    simp [accepted]
  · refine .kept ?_ ?_
    · rintro g same rfl
      cases same
      exact here ⟨rfl, rfl⟩
    · rw [feed]
      split
      · rename_i accepted
        have other : f.socket ≠ T := fun target => here ⟨accepted.1.symm, target⟩
        simp [other]
      · simp

/-- Removing a frame that was not for this transport. -/
theorem feed_drop (held : s.draining member = some (frame, checked)) (other : frame.socket ≠ T) :
    ({ s with draining := Function.update s.draining member none } : Server).feed p T = s.feed p T := by
  by_cases is : p = member
  · subst is
    simp [Server.feed, Server.stream, Server.unsent, frames_held held, other]
  · simp [Server.feed, Server.stream, Server.unsent, Server.frames, is]

theorem feed_step (reached : (server config written).Reachable s)
    (step : Step config written s l t) (is : s.handler T = .running h)
    (binds : h.phase.binds = true) (valid : t.invalidated T = false) :
    FeedChange l h.peer T (s.feed h.peer T) (t.feed h.peer T) := by
  have discipline := disciplined reached
  have bound : s.transport h.peer = some (some T) := by
    have := (discipline.live is (binds_ne_closed binds)).1
    rwa [if_pos binds] at this
  cases step with
  | publish | welcome | goodbye | members | skip | capture | finish | welcomed | register
  | resume | advance | beginSend | unlease | expire | remove =>
    exact .kept (by simp) (feed_congr rfl rfl)
  | push found => exact feed_post rfl rfl rfl rfl bound valid (issued reached (.fanout found))
  | answer found _ captured =>
    exact feed_post rfl rfl rfl rfl bound valid (issued reached (.ready found captured))
  | endSend found =>
    exact feed_post rfl rfl rfl rfl bound valid (issued reached (.send (by simp [found])))
  | join _ _ new => exact .kept (by simp) (feed_congr rfl (frames_setPeer_new new rfl))
  | bind _ _ known =>
    refine .kept (by simp) (feed_congr ?_ ?_)
    · simp only [Server.setHello, invalidate_fields]
      rfl
    · refine .trans (frames_invalidate _) ?_
      rw [frames_setPeer known]
      rfl
  | take known idle taken =>
    have frames := frames_take known idle taken
    exact .kept (by simp) (feed_congr rfl frames)
  | check known held => exact .kept (by simp) (feed_congr rfl (frames_check held))
  | drop known held stale =>
    refine .kept (by simp) (feed_drop held ?_)
    rintro rfl
    rename_i peer frame member
    -- a frame of the bound transport carries its generation
    have frames := frames_held (p := member) held
    obtain ⟨own, current⟩ := owner reached (.frame (f := frame) (p := member) (by simp [frames])) is
    rw [own] at bound
    have generation := current bound
    simp only [Server.transport, known, Option.map_some, Option.some.injEq] at bound
    simp only [Server.generation, known] at generation
    simp [Peer.isCurrentBinding, bound, generation] at stale
  | write held =>
    refine .kept (by simp) ?_
    rename_i frame _ member
    have frames := frames_held (p := member) held
    by_cases here : frame.socket = T
    · subst here
      obtain ⟨rfl, _⟩ := owner reached (.frame (f := frame) (p := member) (by simp [frames])) is
      simp only [Server.feed, Server.stream, Server.unsent, frames]
      simp [Server.write, Server.frames]
    · rw [← feed_drop held here]
      simp only [Server.feed, Server.stream, Server.write, Function.update_of_ne (Ne.symm here)]
      rfl
  | apiError found phase code =>
    rename_i socket message _
    refine .kept (by simp) ?_
    have silent : notable message = false := by simp [notable, code, durableCode]
    by_cases here : T = socket
    · subst here
      simp [Server.feed, Server.stream, Server.write, List.filter_append, silent]
      rfl
    · simp only [Server.feed, Server.stream, Server.write, Function.update_of_ne here]
      rfl
  | refuse pending =>
    rename_i socket
    have here : T ≠ socket := by
      rintro rfl
      rw [is] at pending
      cases pending
    refine .kept (by simp) ?_
    simp only [Server.feed, Server.stream, Server.write, Function.update_of_ne here]
    rfl
  | detach _ _ known detached =>
    exact .kept (by simp) (feed_congr rfl (frames_setPeer known (detachIfCurrent_frames detached)))

/-- A handler that has bound its socket in this step starts with an empty stream. -/
theorem stream_bound (reached : (server config written).Reachable s)
    (step : Step config written s l t) (is : t.handler T = .running h)
    (before : s.handler T = .pending ∨ ∃ k, s.handler T = .running k ∧ k.phase = .resuming) (p : PeerId) :
    t.stream p T = [] := by
  have unowned : ∀ {q g}, ¬ Outstanding s q T g := by
    intro q g out
    obtain ⟨k, same, _, started, _⟩ := issued reached out
    rcases before with pending | ⟨k', resuming, phase⟩
    · cases pending.symm.trans same
    · cases resuming.symm.trans same
      exact started phase
  have quiet := silent reached before
  have written : t.wire T = [] := by
    cases wire_step step T with
    | same same => rw [same, quiet]
    | @written f member here frames =>
      subst here
      exact (unowned (.frame (f := f) (p := member) (by simp [frames]))).elim
    | error _ _ same binds =>
      rcases before with pending | ⟨k', resuming, phase⟩
      · cases pending.symm.trans same
      · cases resuming.symm.trans same
        simp [phase, Phase.binds] at binds
    | refused _ _ refused => cases refused.symm.trans is
  have unsent : ∀ f ∈ t.frames p, f.socket ≠ T := by
    have earlier : ∀ f ∈ s.frames p, f.socket ≠ T := by
      rintro f member rfl
      exact unowned (.frame member)
    have change := frames_step step p
    intro f member
    generalize was : s.frames p = frames, t.frames p = after at change member
    cases change with
    | same => exact earlier f (was ▸ member)
    | entered =>
      rw [List.mem_append, List.mem_singleton] at member
      rcases member with old | rfl
      · exact earlier f (was ▸ old)
      · rintro rfl
        exact unowned (outstanding_post step)
    | left => exact earlier f (was ▸ .tail _ member)
  have empty : (t.frames p).filter (·.socket = T) = [] := by
    rw [List.filter_eq_nil_iff]
    simpa using unsent
  simp only [Server.stream, Server.unsent, written, empty, List.map_nil, List.append_nil]

end Steps
end Conspire.Replay
