import Chiptune.Proofs.Meter.Bank
import Chiptune.Proofs.Playback.Run

/-!
# What the meters of a session show

Loads and stops clear the meters of a session, and ticks reach them only while a song is playing.
`Run.snapshot_after` says that, as long as nobody uses a handle, the meters show just the ticks heard
since the latest event: they are those of a new bank fed with these ticks. What was heard is told by
the moments of the run and the state in which each of them found the session.
-/

namespace Chiptune.Playback

/-- Whether an action goes to the meters past the session. -/
def Action.usesHandle : Action → Bool
  | handleTick _ | handleReset => true
  | _ => false

/-- The samples of a moment that found a session in a state, if it is a tick and a song was
playing. -/
def Moment.heard? (moment : Moment) (state : State) : Option (List UInt8) :=
  match moment.action, state with
  | .tick samples, .playing => some samples
  | _, _ => none

namespace Run

/-- Each moment with the state in which it found the session. -/
def timeline (channelCount : Nat) (moments : List Moment) : List (Moment × State) :=
  moments.mapIdx fun index moment =>
    (moment, (after channelCount (moments.take index)).session.state)

/-- The ticks heard since the latest event. -/
def ticksHeard (channelCount : Nat) (moments : List Moment) : List (List UInt8) :=
  ((timeline channelCount moments).rtakeWhile fun entry => entry.1.event?.isNone).filterMap
    fun entry => entry.1.heard? entry.2

end Run

/-! ### One moment -/

theorem Moment.heard?_eq_none (moment : Moment) {state : State} (hstate : state ≠ .playing) :
    moment.heard? state = none := by
  unfold heard?
  split
  · exact absurd rfl hstate
  · rfl

namespace Session

theorem meters_finishLoad (session : Session) (compiled : Except Error Song) :
    (session.finishLoad compiled).session.meters = session.meters.reset := by
  unfold finishLoad
  split <;> rfl

theorem meters_toggle (session : Session) : session.toggle.session.meters = session.meters := by
  unfold toggle
  cases session.image with
  | none => rfl
  | some image => cases session.state <;> rfl

/-- Every event clears the meters, a load that fails no less than one that succeeds. -/
theorem meters_of_event {session : Session} {moment : Moment} {event : Event}
    (hevent : moment.event? = some event) :
    (session.perform moment.directory moment.action).session.meters = session.meters.reset := by
  obtain ⟨directory, action⟩ := moment
  cases action with
  | loadText text => exact meters_finishLoad ..
  | loadFile path => exact meters_finishLoad ..
  | stop => rfl
  | toggle | setGain _ | tick _ | handleTick _ | handleReset => cases hevent

theorem meters_of_no_event {session : Session} {moment : Moment} (hevent : moment.event? = none)
    (hdirect : moment.action.usesHandle = false) :
    (session.perform moment.directory moment.action).session.meters =
      (moment.heard? session.state).elim session.meters session.meters.tick := by
  obtain ⟨directory, action⟩ := moment
  cases action with
  | toggle => exact meters_toggle session
  | setGain bits => rfl
  | tick samples =>
    simp only [perform, Moment.heard?]
    cases session.state <;> rfl
  | loadText _ | loadFile _ | stop => cases hevent
  | handleTick _ | handleReset => cases hdirect

/-- An event leaves no session paused. -/
theorem Change.event?_of_paused {session : Session} {moment : Moment} {effect : Effect}
    (hchange : session.Change moment effect) (hstate : effect.session.state = .paused) :
    moment.event? = none := by
  cases hchange with
  | loaded | failed | stopped => cases hstate
  | started _ hevent | paused _ hevent | resumed _ hevent | kept _ _ _ hevent => exact hevent

end Session

/-! ### Every run -/

namespace Run

variable {channelCount : Nat} {moments : List Moment} {moment : Moment}

theorem timeline_concat : timeline channelCount (moments ++ [moment]) =
    timeline channelCount moments ++ [(moment, (after channelCount moments).session.state)] := by
  rw [timeline, List.mapIdx_concat, List.take_left]
  apply congrArg (· ++ _)
  apply List.mapIdx_eq_mapIdx_iff.2
  intro index hindex
  rw [List.take_append_of_le_length (Nat.le_of_lt hindex)]

theorem ticksHeard_of_event {event : Event} (hevent : moment.event? = some event) :
    ticksHeard channelCount (moments ++ [moment]) = [] := by
  rw [ticksHeard, timeline_concat, List.rtakeWhile_concat_neg _ _ _ (by simp [hevent])]
  rfl

theorem ticksHeard_of_no_event (hevent : moment.event? = none) :
    ticksHeard channelCount (moments ++ [moment]) = ticksHeard channelCount moments ++
      (moment.heard? (after channelCount moments).session.state).toList := by
  rw [ticksHeard, timeline_concat, List.rtakeWhile_concat_pos _ _ _ (by simp [hevent]),
    List.filterMap_append]
  cases hheard : moment.heard? (after channelCount moments).session.state <;>
    simp [ticksHeard, hheard]

theorem meters_after (hdirect : ∀ moment ∈ moments, moment.action.usesHandle = false) :
    (after channelCount moments).session.meters =
      .fed channelCount {} (ticksHeard channelCount moments) := by
  induction moments using List.reverseRecOn with
  | nil => rfl
  | append_singleton moments moment ih =>
    have hbefore := ih fun other hother => hdirect other (List.mem_append_left _ hother)
    have hmoment := hdirect moment List.mem_concat_self
    rw [after_concat]
    cases hevent : moment.event? with
    | some event =>
      rw [ticksHeard_of_event hevent]
      apply (Session.meters_of_event hevent).trans
      rw [hbefore]
      exact Meter.Bank.reset_fed ..
    | none =>
      rw [ticksHeard_of_no_event hevent]
      apply (Session.meters_of_no_event hevent hmoment).trans
      rw [hbefore]
      cases moment.heard? (after channelCount moments).session.state with
      | none => rw [Option.toList_none, List.append_nil]; rfl
      | some samples => exact (Meter.Bank.fed_concat ..).symm

/-- A stopped session has heard nothing since the latest event. -/
theorem ticksHeard_of_stopped (hstate : (after channelCount moments).session.state = .stopped) :
    ticksHeard channelCount moments = [] := by
  induction moments using List.reverseRecOn with
  | nil => rfl
  | append_singleton moments moment ih =>
    rw [after_concat] at hstate
    have hchange := (after channelCount moments).session.perform_cases moment
    unfold next at hstate
    generalize (after channelCount moments).session.perform moment.directory moment.action = effect
      at hchange hstate
    -- A session that plays is stopped by an event only, and with it hearing starts anew.
    cases hchange with
    | failed _ hevent | stopped hevent => exact ticksHeard_of_event hevent
    | loaded | started | paused | resumed => cases hstate
    | kept _ _ _ hevent _ =>
      have hbefore : (after channelCount moments).session.state = .stopped := hstate
      have hsilent : (after channelCount moments).session.state ≠ .playing := by
        rw [hbefore]
        decide
      rw [ticksHeard_of_no_event hevent, ih hbefore, moment.heard?_eq_none hsilent]
      rfl

/-- As long as nobody uses a handle, the meters of a session show the ticks heard since the latest
event and nothing else. So they show nothing while the session is stopped, and stand still while it
is paused. -/
theorem snapshot_after (channelCount : Nat) {moments : List Moment}
    (hdirect : ∀ moment ∈ moments, moment.action.usesHandle = false) :
    (after channelCount moments).session.meters.snapshot =
      (Meter.Bank.fed channelCount {} (ticksHeard channelCount moments)).snapshot ∧
    ((after channelCount moments).session.state = .stopped →
      (after channelCount moments).session.meters.snapshot =
        ⟨List.replicate channelCount 0, List.replicate channelCount 0⟩) ∧
    ∀ moment : Moment, moment.action.usesHandle = false →
      (after channelCount moments).session.state = .paused →
      (after channelCount (moments ++ [moment])).session.state = .paused →
      (after channelCount (moments ++ [moment])).session.meters.snapshot =
        (after channelCount moments).session.meters.snapshot := by
  refine ⟨?_, ?_, ?_⟩
  · rw [meters_after hdirect]
  · intro hstate
    rw [meters_after hdirect, ticksHeard_of_stopped hstate]
    exact Meter.Bank.snapshot_init channelCount {}
  · intro moment hmoment hbefore hstate
    rw [after_concat] at hstate ⊢
    have hevent := (Session.perform_cases _ moment).event?_of_paused hstate
    apply congrArg Meter.Bank.snapshot
    have hsilent : (after channelCount moments).session.state ≠ .playing := by
      rw [hbefore]
      decide
    apply (Session.meters_of_no_event hevent hmoment).trans
    rw [moment.heard?_eq_none hsilent]
    rfl

/-- A song is paused, loaded once more, and paused for a while in between. -/
def reloadedMoments : List Moment :=
  let text := "ATM1 ENTRY 0 0 0 0 TRACK NOTE 1 DELAY 9 ENDTRACK END".toList
  [.loadText text, .tick [40], .toggle, .loadText text, .tick [63], .toggle, .tick [10], .toggle,
    .tick [0]].map (Moment.mk ⟨[]⟩)

/-- The meters have heard a full tick and a silent one. -/
theorem snapshot_after_reloadedMoments :
    (after 1 reloadedMoments).session.meters.snapshot = ⟨[59], [105]⟩ := by
  have hdirect : ∀ moment ∈ reloadedMoments, moment.action.usesHandle = false := by decide
  obtain ⟨hsnapshot, -⟩ := snapshot_after 1 hdirect
  rw [hsnapshot]
  decide +kernel

end Run

end Chiptune.Playback
