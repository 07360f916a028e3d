import Chiptune.Playback.Session
import Chiptune.Proofs.Song.Shape
import Mathlib.Data.List.Induction

/-!
# Sessions and engines over time

A session and its engine are two machines: the session believes what it wrote down in its fields, and
the engine does what it was told. `Run.faithful_after` says that the two never part, whatever happens
to the session and in whatever order. What the fields should hold is told by the moments of the run
alone, without looking at a session: a moment is an event if it is a load or a stop, and what comes
of a load depends on its text and the files at that moment only.

The proof asks `Session.perform_cases` what a moment can do and looks at no action otherwise.
-/

namespace Chiptune.Playback

/-- Something that happens to a session, in a directory of song files, which may be another one at
each time. -/
structure Moment where
  directory : Directory
  action : Action

inductive Event where
  | loaded (song : Song)
  | failed
  | stopped
deriving DecidableEq

def Event.ofCompiled : Except Error Song → Event
  | .ok song => loaded song
  | .error _ => failed

def Event.song? : Event → Option Song
  | loaded song => some song
  | failed | stopped => none

/-- The state that an event leaves a session in. -/
def Event.state : Event → State
  | loaded _ => .playing
  | failed | stopped => .stopped

def Moment.event? (moment : Moment) : Option Event :=
  match moment.action with
  | .loadText text => some (.ofCompiled (Song.compile text))
  | .loadFile path => some (.ofCompiled (Song.loadFile moment.directory path))
  | .stop => some .stopped
  | _ => none

def latestEvent? (moments : List Moment) : Option Event := (moments.filterMap Moment.event?).getLast?

/-- The song of the latest load that succeeded. -/
def latestSong? (moments : List Moment) : Option Song :=
  (moments.filterMap fun moment => moment.event?.bind Event.song?).getLast?

/-- The status of a session agrees with its state and, while nothing is playing, tells the latest
event. After a load that succeeded something is playing or paused. -/
structure Session.Reports (session : Session) (latest? : Option Event) : Prop where
  playing : session.state = .playing → session.status = .playing
  paused : session.state = .paused → session.status = .paused
  stopped : session.state = .stopped →
    (session.status = .loadError ↔ latest? = some .failed) ∧
    (session.status = .stopped ↔ latest? = some .stopped) ∧
    (session.status = .chooseFile ↔ latest? = none) ∧
    ∀ song, latest? ≠ some (.loaded song)

/-- A session together with the calls it has made and the answers it has given. -/
structure Run where
  session : Session
  calls : List Call
  answers : List Answer

namespace Run

def next (run : Run) (moment : Moment) : Run :=
  let effect := run.session.perform moment.directory moment.action
  ⟨effect.session, run.calls ++ effect.calls, run.answers ++ [effect.answer]⟩

def after (channelCount : Nat) (moments : List Moment) : Run :=
  moments.foldl next ⟨.init channelCount, [], []⟩

/-- A run in which the session, its engine and the moments so far agree. -/
structure Faithful (run : Run) (moments : List Moment) : Prop where
  idle : run.session.state = .stopped → Engine.run? .idle run.calls = some .idle
  running : run.session.state = .playing → ∃ image, run.session.image = some image ∧
    Engine.run? .idle run.calls = some (.running image)
  held : run.session.state = .paused → ∃ image, run.session.image = some image ∧
    Engine.run? .idle run.calls = some (.held image)
  pause_ne_idle : ∀ before after, run.calls = before ++ .pauseToggle :: after →
    Engine.run? .idle before ≠ some .idle
  song_eq : run.session.song = latestSong? moments
  image_some : ∀ song, latestSong? moments = some song → ∃ image,
    run.session.image = some image ∧ song.toImage = .ok image
  image_none : latestSong? moments = none → run.session.image = none
  answer_eq : ∀ (index : Nat) (directory : Directory), moments[index]? = some ⟨directory, .toggle⟩ →
    run.answers[index]? = some (.toggled (latestSong? (moments.take index)).isSome)
  entered : ∀ before moment event, moments = before ++ [moment] → moment.event? = some event →
    run.session.state = event.state
  reports : run.session.Reports (latestEvent? moments)

end Run

/-! ### The engine -/

namespace Engine

theorem run?_append_of_some {engine engine' : Engine} {calls : List Call}
    (hrun : run? engine calls = some engine') (calls' : List Call) :
    run? engine (calls ++ calls') = run? engine' calls' := by
  rw [run?, List.foldlM_append, ← run?, hrun]
  rfl

/-- An engine that took all its calls was never told to pause or resume nothing. -/
theorem run?_ne_idle {engine engine' : Engine} {before after : List Call}
    (hrun : run? engine (before ++ .pauseToggle :: after) = some engine') :
    run? engine before ≠ some idle := by
  intro hidle
  rw [run?_append_of_some hidle] at hrun
  cases hrun

end Engine

/-! ### What a moment can do -/

namespace Session

/-- Everything that a moment can do to a session. -/
inductive Change (session : Session) (moment : Moment) : Effect → Prop
  | loaded (song : Song) (image : List UInt8) (hevent : moment.event? = some (.loaded song))
      (himage : song.toImage = .ok image) : Change session moment
        ⟨⟨some song, some image, .playing, .playing, session.meters.reset⟩, .loaded none,
          [.play image]⟩
  | failed (fault : Error) (hevent : moment.event? = some .failed) : Change session moment
        ⟨{ session.halt with status := .loadError }, .loaded (some fault), [.stop]⟩
  | stopped (hevent : moment.event? = some .stopped) : Change session moment
        ⟨{ session.halt with status := .stopped }, .done, [.stop]⟩
  | started (image : List UInt8) (hevent : moment.event? = none)
      (himage : session.image = some image) (hstate : session.state = .stopped) :
      Change session moment ⟨session.enter .playing, .toggled true, [.play image]⟩
  | paused (image : List UInt8) (hevent : moment.event? = none)
      (himage : session.image = some image) (hstate : session.state = .playing) :
      Change session moment ⟨session.enter .paused, .toggled true, [.pauseToggle]⟩
  | resumed (image : List UInt8) (hevent : moment.event? = none)
      (himage : session.image = some image) (hstate : session.state = .paused) :
      Change session moment ⟨session.enter .playing, .toggled true, [.pauseToggle]⟩
  /-- Nothing changes but the meters, and the engine is told nothing but a gain. -/
  | kept (meters : Meter.Bank) (answer : Answer) (calls : List Call) (hevent : moment.event? = none)
      (hcalls : ∀ engine, Engine.run? engine calls = some engine) :
      Change session moment ⟨{ session with meters := meters }, answer, calls⟩

theorem change_finishLoad {session : Session} {moment : Moment} {compiled : Except Error Song}
    (hevent : moment.event? = some (.ofCompiled compiled))
    (himage : ∀ song, compiled = .ok song → ∃ image, song.toImage = .ok image) :
    Change session moment (session.finishLoad compiled) := by
  cases compiled with
  | error fault => exact .failed fault hevent
  | ok song =>
    obtain ⟨image, hok⟩ := himage song rfl
    have heffect : session.finishLoad (.ok song) = ⟨⟨some song, some image, .playing, .playing,
        session.meters.reset⟩, .loaded none, [.play image]⟩ := by
      simp only [finishLoad, Except.bind, hok, Except.map]
    rw [heffect]
    exact .loaded song image hevent hok

theorem change_toggle {session : Session} {moment : Moment} (hevent : moment.event? = none) :
    Change session moment session.toggle := by
  unfold toggle
  cases himage : session.image with
  | none => exact .kept session.meters _ _ hevent fun _ => rfl
  | some image =>
    cases hstate : session.state with
    | stopped => exact .started image hevent himage hstate
    | playing => exact .paused image hevent himage hstate
    | paused => exact .resumed image hevent himage hstate

theorem perform_cases (session : Session) (moment : Moment) :
    Change session moment (session.perform moment.directory moment.action) := by
  obtain ⟨directory, action⟩ := moment
  cases action with
  | loadText text =>
    exact change_finishLoad rfl fun song hcompile => Song.exists_image_of_compile hcompile
  | loadFile path =>
    refine change_finishLoad rfl ?_
    intro song hcompile
    obtain ⟨text, htext⟩ := Song.exists_text_of_compileFile? (Song.loadFile_eq_iff.1 hcompile)
    exact Song.exists_image_of_compile htext
  | toggle => exact change_toggle rfl
  | stop => exact .stopped rfl
  | setGain bits => exact .kept session.meters _ _ rfl fun engine => by cases engine <;> rfl
  | tick samples =>
    simp only [perform]
    split
    · exact .kept _ _ _ rfl fun _ => rfl
    · exact .kept session.meters _ _ rfl fun _ => rfl
  | handleTick samples => exact .kept _ _ _ rfl fun _ => rfl
  | handleReset => exact .kept _ _ _ rfl fun _ => rfl

theorem Change.state_eq {session : Session} {moment : Moment} {effect : Effect} {event : Event}
    (hchange : session.Change moment effect) (hevent : moment.event? = some event) :
    effect.session.state = event.state := by
  cases hchange with
  | loaded _ _ hown _ | failed _ hown | stopped hown =>
    cases hown.symm.trans hevent
    rfl
  | started _ hnone _ _ | paused _ hnone _ _ | resumed _ hnone _ _ | kept _ _ _ hnone _ =>
    cases hnone.symm.trans hevent

theorem answer_toggle (session : Session) :
    session.toggle.answer = .toggled session.image.isSome := by
  unfold toggle
  cases session.image with
  | none => rfl
  | some image => cases session.state <;> rfl

/-- The engine that a session takes itself to be driving. -/
def engine? (session : Session) : Option Engine :=
  match session.state with
  | .stopped => some .idle
  | .playing => session.image.map .running
  | .paused => session.image.map .held

end Session

/-! ### Every run -/

theorem latestEvent?_concat (moments : List Moment) (moment : Moment) :
    latestEvent? (moments ++ [moment]) = moment.event?.or (latestEvent? moments) := by
  simp [latestEvent?]

theorem latestSong?_concat (moments : List Moment) (moment : Moment) :
    latestSong? (moments ++ [moment]) =
      (moment.event?.bind Event.song?).or (latestSong? moments) := by
  simp [latestSong?]

namespace Run

variable (channelCount : Nat)

theorem after_concat (moments : List Moment) (moment : Moment) :
    after channelCount (moments ++ [moment]) = (after channelCount moments).next moment := by
  rw [after, List.foldl_append]
  rfl

/-- What a new session has and every change keeps, every run has. -/
theorem after_induction {motive : List Moment → Run → Prop}
    (hinit : motive [] ⟨.init channelCount, [], []⟩)
    (hchange : ∀ moments run moment effect, run.session.Change moment effect → motive moments run →
      motive (moments ++ [moment])
        ⟨effect.session, run.calls ++ effect.calls, run.answers ++ [effect.answer]⟩)
    (moments : List Moment) : motive moments (after channelCount moments) := by
  induction moments using List.reverseRecOn with
  | nil => exact hinit
  | append_singleton moments moment ih =>
    rw [after_concat]
    exact hchange moments _ moment _ (Session.perform_cases _ moment) ih

theorem engine_after (moments : List Moment) : ∃ engine,
    (after channelCount moments).session.engine? = some engine ∧
      Engine.run? .idle (after channelCount moments).calls = some engine := by
  refine after_induction channelCount (motive := fun _ run => ∃ engine,
    run.session.engine? = some engine ∧ Engine.run? .idle run.calls = some engine) ?_ ?_ moments
  · exact ⟨.idle, rfl, rfl⟩
  · rintro moments run moment effect hchange ⟨engine, hengine, hrun⟩
    simp only [Engine.run?_append_of_some hrun]
    cases hchange with
    | loaded song image hevent himage => exact ⟨.running image, rfl, rfl⟩
    | failed fault hevent => exact ⟨.idle, rfl, rfl⟩
    | stopped hevent => exact ⟨.idle, rfl, rfl⟩
    | started image hevent himage hstate =>
      refine ⟨.running image, ?_, rfl⟩
      simp [Session.engine?, Session.enter, himage]
    | paused image hevent himage hstate =>
      -- The engine is running this image, so it can be paused.
      simp only [Session.engine?, hstate, himage, Option.map_some, Option.some.injEq] at hengine
      subst hengine
      refine ⟨.held image, ?_, rfl⟩
      simp [Session.engine?, Session.enter, himage]
    | resumed image hevent himage hstate =>
      simp only [Session.engine?, hstate, himage, Option.map_some, Option.some.injEq] at hengine
      subst hengine
      refine ⟨.running image, ?_, rfl⟩
      simp [Session.engine?, Session.enter, himage]
    | kept meters answer calls hevent hcalls => exact ⟨engine, hengine, hcalls engine⟩

theorem song_after (moments : List Moment) :
    (after channelCount moments).session.song = latestSong? moments ∧
      (after channelCount moments).session.image.map .ok = (latestSong? moments).map Song.toImage := by
  refine after_induction channelCount (motive := fun moments run =>
    run.session.song = latestSong? moments ∧
      run.session.image.map .ok = (latestSong? moments).map Song.toImage) ?_ ?_ moments
  · exact ⟨rfl, rfl⟩
  · rintro moments run moment effect hchange ⟨hsong, himage⟩
    rw [latestSong?_concat]
    cases hchange with
    | loaded song image hevent hok =>
      rw [hevent]
      exact ⟨rfl, congrArg some hok.symm⟩
    | failed _ hevent | stopped hevent | started _ hevent _ _ | paused _ hevent _ _
    | resumed _ hevent _ _ | kept _ _ _ hevent _ =>
      rw [hevent]
      exact ⟨hsong, himage⟩

theorem reports_after (moments : List Moment) :
    (after channelCount moments).session.Reports (latestEvent? moments) := by
  refine after_induction channelCount (motive := fun moments run =>
    run.session.Reports (latestEvent? moments)) ?_ ?_ moments
  · refine ⟨nofun, nofun, fun _ => ?_⟩
    exact ⟨⟨nofun, nofun⟩, ⟨nofun, nofun⟩, ⟨fun _ => rfl, fun _ => rfl⟩, nofun⟩
  · intro moments run moment effect hchange hreports
    rw [latestEvent?_concat]
    cases hchange with
    | loaded song image hevent himage => exact ⟨fun _ => rfl, nofun, nofun⟩
    | failed fault hevent =>
      rw [hevent]
      exact ⟨nofun, nofun, fun _ => by simp⟩
    | stopped hevent =>
      rw [hevent]
      exact ⟨nofun, nofun, fun _ => by simp⟩
    | started image hevent himage hstate => exact ⟨fun _ => rfl, nofun, nofun⟩
    | paused image hevent himage hstate => exact ⟨nofun, fun _ => rfl, nofun⟩
    | resumed image hevent himage hstate => exact ⟨fun _ => rfl, nofun, nofun⟩
    | kept meters answer calls hevent hcalls =>
      rw [hevent]
      exact ⟨hreports.playing, hreports.paused, hreports.stopped⟩

theorem answers_after (moments : List Moment) :
    (after channelCount moments).answers.length = moments.length ∧
    ∀ (index : Nat) (directory : Directory), moments[index]? = some ⟨directory, .toggle⟩ →
      (after channelCount moments).answers[index]? =
        some (.toggled (latestSong? (moments.take index)).isSome) := by
  induction moments using List.reverseRecOn with
  | nil => exact ⟨rfl, fun index directory hmoment => by simp at hmoment⟩
  | append_singleton moments moment ih =>
    obtain ⟨hlength, hanswers⟩ := ih
    rw [after_concat]
    simp only [next, List.length_append, List.length_singleton, hlength, true_and]
    intro index directory hmoment
    rcases Nat.lt_trichotomy index moments.length with hlt | rfl | hgt
    · rw [List.getElem?_append_left hlt] at hmoment
      rw [List.getElem?_append_left (hlength ▸ hlt), List.take_append_of_le_length (Nat.le_of_lt hlt)]
      exact hanswers index directory hmoment
    · rw [List.getElem?_concat_length] at hmoment
      cases hmoment
      have himage := congrArg Option.isSome (song_after channelCount moments).2
      rw [Option.isSome_map, Option.isSome_map] at himage
      rw [← hlength, List.getElem?_concat_length, hlength, List.take_left, ← himage]
      exact congrArg some (Session.answer_toggle _)
    · rw [List.getElem?_eq_none (by simp; omega)] at hmoment
      cases hmoment

/-- Whatever happens to a new session and in whatever order, the session, its engine and what has
happened agree. -/
theorem faithful_after (moments : List Moment) :
    (after channelCount moments).Faithful moments := by
  obtain ⟨engine, hengine, hrun⟩ := engine_after channelCount moments
  obtain ⟨hsong, himage⟩ := song_after channelCount moments
  refine ⟨?_, ?_, ?_, ?_, hsong, ?_, ?_, (answers_after channelCount moments).2, ?_,
    reports_after channelCount moments⟩
  · intro hstate
    rw [hrun, ← hengine, Session.engine?, hstate]
  · intro hstate
    rw [Session.engine?, hstate] at hengine
    obtain ⟨image, hsome, rfl⟩ := Option.map_eq_some_iff.1 hengine
    exact ⟨image, hsome, hrun⟩
  · intro hstate
    rw [Session.engine?, hstate] at hengine
    obtain ⟨image, hsome, rfl⟩ := Option.map_eq_some_iff.1 hengine
    exact ⟨image, hsome, hrun⟩
  · intro before after hcalls
    rw [hcalls] at hrun
    exact Engine.run?_ne_idle hrun
  · intro song hlatest
    rw [hlatest] at himage
    obtain ⟨image, hsome, hok⟩ := Option.map_eq_some_iff.1 himage
    exact ⟨image, hsome, hok.symm⟩
  · intro hlatest
    rw [hlatest] at himage
    exact Option.map_eq_none_iff.1 himage
  · rintro before moment event rfl hevent
    rw [after_concat]
    exact (Session.perform_cases _ moment).state_eq hevent

end Run

end Chiptune.Playback
