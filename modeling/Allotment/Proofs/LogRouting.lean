import Allotment.Log.Routing
import Allotment.Proofs.LogFiles
import Mathlib

/-! Which log an event goes to, over a whole run. What has happened so far names one log at most: the newest that was
    installed for a while and has not been removed, else the first that was installed for good. Each step keeps the logs
    that are installed in line with that history, so that every display and every file ends with the lines of the
    events that a log of its own let through, in order. Nothing is asked of the world but that its outputs are lawful:
    which names lead to one file, and which to none, is its own affair. -/

namespace Allotment.Log

variable {World File : Type}

/-! ### Lines that are written -/

section Lines
variable [DecidableEq File]

/-- The lines that a sink gets of an event: one from each layer of the log that writes to it, if the level of the log
    lets the event through. -/
def Outlet.linesOf (outlet : Outlet File) (sink : Sink File) (event : Event) : List String :=
  if outlet.level.passes event then List.replicate (outlet.sinks.count sink) event.line else []

variable [Outputs World File] [LawfulOutputs World File] {world : World} {sink : Sink File}

theorem linesAt_append (h : Outputs.isOpen world sink = true) (line : String) (other : Sink File) :
    Outputs.linesAt (Outputs.append world sink line) other =
      Outputs.linesAt world other ++ if sink = other then [line] else [] := by
  by_cases hsame : sink = other
  · subst hsame
    rw [if_pos rfl]
    exact LawfulOutputs.linesAt_append_self world sink line h
  · rw [if_neg hsame, List.append_nil]
    exact LawfulOutputs.linesAt_append_of_ne world sink line other h (Ne.symm hsame)

/-- A line that is written to one sink after another stands at the end of each. -/
theorem linesAt_foldl_append {sinks : List (Sink File)} (h : ∀ sink ∈ sinks, Outputs.isOpen world sink = true)
    (line : String) (other : Sink File) :
    Outputs.linesAt (sinks.foldl (fun world sink => Outputs.append world sink line) world) other =
      Outputs.linesAt world other ++ List.replicate (sinks.count other) line := by
  induction sinks generalizing world with
  | nil => exact (List.append_nil _).symm
  | cons sink sinks ih =>
    have hrest : ∀ later ∈ sinks, Outputs.isOpen (Outputs.append world sink line) later = true := fun later hlater =>
      LawfulOutputs.isOpen_append world sink line later (h later (List.mem_cons_of_mem sink hlater))
    rw [List.foldl_cons, ih hrest, linesAt_append (h sink List.mem_cons_self), List.count_cons, List.append_assoc]
    by_cases hsame : sink = other
    · simp [hsame, List.replicate_succ]
    · simp [hsame]

end Lines

/-! ### Logs that are set up -/

section SetUp
variable [Outputs World File]

/-- The sinks of a log are there. -/
def Serves (world : World) (outlet : Outlet File) : Prop := ∀ sink ∈ outlet.sinks, Outputs.isOpen world sink = true

/-- No sink is lost, and no line of any. -/
structure Keeps (world later : World) : Prop where
  isOpen : ∀ sink, Outputs.isOpen world sink = true → Outputs.isOpen later sink = true
  lines : ∀ sink, Outputs.linesAt later sink = Outputs.linesAt world sink

theorem Keeps.refl (world : World) : Keeps world world := ⟨fun _ h => h, fun _ => rfl⟩

theorem Keeps.serves {world later : World} (h : Keeps world later) {outlet : Outlet File}
    (hserves : Serves world outlet) : Serves later outlet :=
  fun sink hsink => h.isOpen sink (hserves sink hsink)

variable [LawfulOutputs World File]

theorem keeps_openLog (world : World) (text : String) :
    Keeps world (openLog world text).1 ∧ ∀ sink, (openLog world text).2 = .ok sink →
      Outputs.isOpen (openLog world text).1 sink = true := by
  rw [openLog]
  split
  · refine ⟨.refl world, ?_⟩
    rintro _ ⟨⟩
  · refine ⟨.refl world, ?_⟩
    rintro _ ⟨⟩
  · rename_i parent name _ _
    have hkeeps : Keeps world (Outputs.openFile world parent name).1 :=
      ⟨LawfulOutputs.isOpen_openFile world parent name, LawfulOutputs.linesAt_openFile world parent name⟩
    have hopened := LawfulOutputs.isOpen_of_openFile world parent name
    split
    · rename_i hopen
      rw [hopen] at hkeeps hopened
      refine ⟨hkeeps, ?_⟩
      rintro _ ⟨⟩
      exact hopened _ rfl
    · rename_i hopen
      rw [hopen] at hkeeps
      refine ⟨hkeeps, ?_⟩
      rintro _ ⟨⟩

/-- Setting a log up loses nothing, and its sinks are there. -/
theorem keeps_setUp (config : Config) (world : World) :
    Keeps world (config.setUp world).1 ∧ ∀ file, (config.setUp world).2 = .ok file →
      Serves (config.setUp world).1 (config.outlet file) := by
  have hdisplay : ∀ (world : World) (sink : Sink File), sink ∈ (config.writer.display?.map Sink.display).toList →
      Outputs.isOpen world sink = true := by
    intro world sink hsink
    obtain ⟨display, -, rfl⟩ := Option.map_eq_some_iff.mp (Option.mem_toList.mp hsink)
    exact LawfulOutputs.isOpen_display world display
  rw [Config.setUp]
  cases config.writer.path? with
  | none =>
    refine ⟨.refl world, ?_⟩
    rintro _ ⟨⟩ sink hsink
    rw [Config.outlet, Option.toList_none, List.append_nil] at hsink
    exact hdisplay world sink hsink
  | some text =>
    obtain ⟨hkeeps, hopened⟩ := keeps_openLog world text
    dsimp only
    split
    · rename_i hopen
      rw [hopen] at hkeeps hopened
      refine ⟨hkeeps, ?_⟩
      rintro _ ⟨⟩ sink hsink
      rcases List.mem_append.mp hsink with hsink | hsink
      · exact hdisplay _ sink hsink
      · obtain rfl := List.mem_singleton.mp hsink
        exact hopened _ rfl
    · rename_i hopen
      rw [hopen] at hkeeps
      refine ⟨hkeeps, ?_⟩
      rintro _ ⟨⟩

end SetUp

namespace Routing

section Writing
variable [Outputs World File] {routing later last : Routing World File} {outlet : Outlet File}

/-- The same logs are installed, and the sinks are there. -/
structure SameLogs (routing later : Routing World File) : Prop where
  lasting : later.lasting = routing.lasting
  passing : later.passing = routing.passing
  isOpen : ∀ sink, Outputs.isOpen routing.world sink = true → Outputs.isOpen later.world sink = true

/-- Besides, nothing has been written. -/
structure Stays (routing later : Routing World File) : Prop extends SameLogs routing later where
  lines : ∀ sink, Outputs.linesAt later.world sink = Outputs.linesAt routing.world sink

theorem SameLogs.refl (routing : Routing World File) : SameLogs routing routing := ⟨rfl, rfl, fun _ h => h⟩

theorem SameLogs.trans (h : SameLogs routing later) (h' : SameLogs later last) : SameLogs routing last :=
  ⟨h'.lasting.trans h.lasting, h'.passing.trans h.passing, fun sink hopen => h'.isOpen sink (h.isOpen sink hopen)⟩

theorem SameLogs.current? (h : SameLogs routing later) : later.current? = routing.current? := by
  rw [Routing.current?, h.passing, h.lasting, Routing.current?]

theorem SameLogs.serves (h : SameLogs routing later) (hserves : Serves routing.world outlet) :
    Serves later.world outlet :=
  fun sink hsink => h.isOpen sink (hserves sink hsink)

theorem stays_of_keeps {world : World} (h : Keeps routing.world world) : Stays routing { routing with world } :=
  ⟨⟨rfl, rfl, h.isOpen⟩, h.lines⟩

theorem emitAll_of_none (hcurrent : routing.current? = none) (events : List Event) :
    routing.emitAll events = routing := by
  rw [emitAll]
  induction events with
  | nil => rfl
  | cons event events ih => rwa [List.foldl_cons, emit, hcurrent]

variable [LawfulOutputs World File]

theorem sameLogs_write (routing : Routing World File) (outlet : Outlet File) (line : String) :
    SameLogs routing (routing.write outlet line) := by
  refine ⟨rfl, rfl, fun other hopen => ?_⟩
  rw [write]
  induction outlet.sinks generalizing routing with
  | nil => exact hopen
  | cons sink sinks ih =>
    exact ih { routing with world := Outputs.append routing.world sink line }
      (LawfulOutputs.isOpen_append routing.world sink line other hopen)

theorem sameLogs_emit (routing : Routing World File) (event : Event) : SameLogs routing (routing.emit event) := by
  rw [emit]
  split
  · exact .refl routing
  · split
    · exact sameLogs_write routing _ _
    · exact .refl routing

theorem sameLogs_emitAll (routing : Routing World File) (events : List Event) :
    SameLogs routing (routing.emitAll events) := by
  induction events generalizing routing with
  | nil => exact .refl routing
  | cons event events ih => exact (sameLogs_emit routing event).trans (ih (routing.emit event))

variable [DecidableEq File]

theorem linesAt_emit (hcurrent : routing.current? = some outlet) (hserves : Serves routing.world outlet) (event : Event)
    (sink : Sink File) :
    Outputs.linesAt (routing.emit event).world sink =
      Outputs.linesAt routing.world sink ++ outlet.linesOf sink event := by
  rw [emit, hcurrent, Outlet.linesOf]
  dsimp only
  split
  · exact linesAt_foldl_append hserves event.line sink
  · exact (List.append_nil _).symm

/-- Events go to the log at hand, each after those before it. -/
theorem linesAt_emitAll (hcurrent : routing.current? = some outlet) (hserves : Serves routing.world outlet)
    (events : List Event) (sink : Sink File) :
    Outputs.linesAt (routing.emitAll events).world sink =
      Outputs.linesAt routing.world sink ++ events.flatMap (outlet.linesOf sink) := by
  induction events generalizing routing with
  | nil => exact (List.append_nil _).symm
  | cons event events ih =>
    have hsame := sameLogs_emit routing event
    have hrest := ih (hsame.current?.trans hcurrent) (hsame.serves hserves)
    rw [emitAll] at hrest ⊢
    rw [List.foldl_cons, hrest, linesAt_emit hcurrent hserves, List.append_assoc, List.flatMap_cons]

end Writing

/-! ### Histories -/

/-- Steps with what they told the program. -/
abbrev History (File : Type) := List (Step × Answer File)

namespace History

/-- The logs that were installed for a while and have not been removed, the newest first. -/
def passing (past : History File) : List (Outlet File) :=
  past.foldl (fun passing happened => match happened with
    | (.installPassing config, .installed file) => config.outlet file :: passing
    | (.dropPassing, _) => passing.tail
    | _ => passing) []

/-- The first log that was installed for good. -/
def lasting (past : History File) : Option (Outlet File) :=
  past.findSome? fun
    | (.installLasting config, .installed file) => some (config.outlet file)
    | _ => none

/-- The log that events go to. -/
def current (past : History File) : Option (Outlet File) := past.passing.head?.or past.lasting

/-- The events of a step, each with the log that it goes to. -/
def delivered (past : History File) : Step → List (Outlet File × Event)
  | .emit events => past.current.toList.flatMap fun outlet => events.map fun event => (outlet, event)
  | _ => []

/-- All events of a history that go to a log, in order, where `past` has gone before. -/
def deliveries (past : History File) : History File → List (Outlet File × Event)
  | [] => []
  | first :: later => past.delivered first.1 ++ deliveries (past ++ [first]) later

/-- The lines that a sink gets of some deliveries, in order. -/
def linesTo [DecidableEq File] (sink : Sink File) (deliveries : List (Outlet File × Event)) : List String :=
  deliveries.flatMap fun delivery => delivery.1.linesOf sink delivery.2

theorem passing_concat (past : History File) (step : Step) (answer : Answer File) :
    History.passing (past ++ [(step, answer)]) = match (step, answer) with
      | (.installPassing config, .installed file) => config.outlet file :: past.passing
      | (.dropPassing, _) => past.passing.tail
      | _ => past.passing := by
  rw [passing, List.foldl_append]
  rfl

theorem lasting_concat (past : History File) (step : Step) (answer : Answer File) :
    History.lasting (past ++ [(step, answer)]) = past.lasting.or (match (step, answer) with
      | (.installLasting config, .installed file) => some (config.outlet file)
      | _ => none) := by
  rw [lasting, List.findSome?_append, List.findSome?_singleton]
  rfl

theorem deliveries_append (past between later : History File) :
    deliveries past (between ++ later) = deliveries past between ++ deliveries (past ++ between) later := by
  induction between generalizing past with
  | nil => rw [List.nil_append, List.append_nil]; rfl
  | cons first between ih =>
    rw [List.cons_append, deliveries, deliveries, ih, List.append_assoc, List.append_assoc, List.singleton_append]

theorem deliveries_concat (past : History File) (step : Step) (answer : Answer File) :
    deliveries [] (past ++ [(step, answer)]) = deliveries [] past ++ past.delivered step := by
  rw [deliveries_append, deliveries, deliveries, List.append_nil, List.nil_append]

end History

/-! ### Installing -/

section Installing
variable [Outputs World File]

/-- The world lets a log be set up, and opens this file for it. -/
def SetsUp (routing : Routing World File) (config : Config) (file : Option (Sink File)) : Prop :=
  (config.setUp routing.world).2 = .ok file

variable [LawfulOutputs World File]

/-- A log that can be set up is installed for a while, in front of the others. -/
theorem installPassing_cases (routing : Routing World File) (config : Config) :
    (∃ file world, routing.SetsUp config file ∧ Keeps routing.world world ∧ Serves world (config.outlet file) ∧
      routing.installPassing config =
        ({ routing with world, passing := config.outlet file :: routing.passing }, .ok file)) ∨
    ((∀ file, ¬routing.SetsUp config file) ∧ ∃ failure world, Keeps routing.world world ∧
      routing.installPassing config = ({ routing with world }, .error failure)) := by
  obtain ⟨hkeeps, hserves⟩ := keeps_setUp config routing.world
  simp only [installPassing, SetsUp]
  cases hset : config.setUp routing.world with
  | mk world result =>
    rw [hset] at hkeeps hserves
    cases result with
    | error failure => exact Or.inr ⟨fun _ h => (nomatch h), failure, world, hkeeps, rfl⟩
    | ok file => exact Or.inl ⟨file, world, rfl, hkeeps, hserves file rfl, rfl⟩

/-- A log that can be set up is installed for good where none is. -/
theorem installLasting_cases (routing : Routing World File) (config : Config) :
    (∃ file world, routing.SetsUp config file ∧ routing.lasting = none ∧ Keeps routing.world world ∧
      Serves world (config.outlet file) ∧
      routing.installLasting config = ({ routing with world, lasting := some (config.outlet file) }, .ok file)) ∨
    ((∀ file, ¬(routing.SetsUp config file ∧ routing.lasting = none)) ∧ ∃ failure world,
      Keeps routing.world world ∧ routing.installLasting config = ({ routing with world }, .error failure)) := by
  obtain ⟨hkeeps, hserves⟩ := keeps_setUp config routing.world
  simp only [installLasting, SetsUp]
  cases hset : config.setUp routing.world with
  | mk world result =>
    rw [hset] at hkeeps hserves
    cases result with
    | error failure => exact Or.inr ⟨fun _ h => (nomatch h.1), failure, world, hkeeps, rfl⟩
    | ok file =>
      cases hlasting : routing.lasting with
      | none => exact Or.inl ⟨file, world, rfl, rfl, hkeeps, hserves file rfl, by simp⟩
      | some installed => exact Or.inr ⟨fun _ h => (nomatch h.2), .refused .alreadySet, world, hkeeps, by simp⟩

end Installing

/-! ### One step -/

/-- What `start` has become after what has happened: the logs that are installed are those that the history names, their
    sinks are there, and every sink has the lines of what was delivered. -/
structure Tracks [DecidableEq File] [Outputs World File] (start : Routing World File) (past : History File)
    (routing : Routing World File) : Prop where
  passing : routing.passing = past.passing
  lasting : routing.lasting = past.lasting
  serves : ∀ outlet, outlet ∈ past.passing ∨ past.lasting = some outlet → Serves routing.world outlet
  lines : ∀ sink, Outputs.linesAt routing.world sink =
    Outputs.linesAt start.world sink ++ History.linesTo sink (History.deliveries [] past)

namespace Tracks
variable [DecidableEq File] [Outputs World File] {start routing later : Routing World File} {past : History File}

theorem current? (h : Tracks start past routing) : routing.current? = past.current := by
  rw [Routing.current?, h.passing, h.lasting, History.current]

theorem serves_current (h : Tracks start past routing) {outlet : Outlet File} (hcurrent : past.current = some outlet) :
    Serves routing.world outlet := by
  refine h.serves outlet ?_
  rw [History.current, Option.or_eq_some_iff] at hcurrent
  rcases hcurrent with hhead | ⟨-, hlasting⟩
  · exact Or.inl (List.mem_of_head? hhead)
  · exact Or.inr hlasting

/-- A step that delivers nothing leaves the lines as they are. -/
theorem lines_concat (h : Tracks start past routing) {step : Step} (hnone : past.delivered step = [])
    (answer : Answer File) (sink : Sink File) : Outputs.linesAt routing.world sink =
      Outputs.linesAt start.world sink ++ History.linesTo sink (History.deliveries [] (past ++ [(step, answer)])) := by
  rw [History.deliveries_concat, hnone, List.append_nil, h.lines sink]

/-- An installation that fails is as if it had not been tried, whether it returns an error or panics. -/
theorem fail (h : Tracks start past routing) (hstays : Stays routing later) {step : Step}
    (hinstall : (∃ config, step = .installLasting config) ∨ ∃ config, step = .installPassing config)
    (failure : Failure) : Tracks start (past ++ [(step, .ofResult (.error failure))]) later := by
  obtain ⟨hpassing, hlasting, hnone⟩ : History.passing (past ++ [(step, .ofResult (.error failure))]) = past.passing ∧
      History.lasting (past ++ [(step, .ofResult (.error failure))]) = past.lasting ∧ past.delivered step = [] := by
    rw [History.passing_concat, History.lasting_concat]
    rcases hinstall with ⟨config, rfl⟩ | ⟨config, rfl⟩ <;> cases failure <;> exact ⟨rfl, Option.or_none, rfl⟩
  refine ⟨?_, ?_, ?_, fun sink => (hstays.lines sink).trans (h.lines_concat hnone _ sink)⟩
  · rw [hstays.passing, h.passing, hpassing]
  · rw [hstays.lasting, h.lasting, hlasting]
  · rw [hpassing, hlasting]
    exact fun outlet houtlet => hstays.serves (h.serves outlet houtlet)

theorem installLasting (h : Tracks start past routing) {world : World} (hkeeps : Keeps routing.world world)
    {config : Config} {file : Option (Sink File)} (hserves : Serves world (config.outlet file))
    (hnone : routing.lasting = none) :
    Tracks start (past ++ [(.installLasting config, .installed file)])
      { routing with world, lasting := some (config.outlet file) } := by
  have hlasting : past.lasting = none := h.lasting.symm.trans hnone
  refine ⟨?_, ?_, ?_, fun sink => (hkeeps.lines sink).trans (h.lines_concat rfl _ sink)⟩
  · rw [History.passing_concat]
    exact h.passing
  · rw [History.lasting_concat, hlasting]
    rfl
  · rw [History.passing_concat, History.lasting_concat, hlasting]
    rintro other (hother | hother)
    · exact hkeeps.serves (h.serves other (Or.inl hother))
    · cases hother
      exact hserves

theorem installPassing (h : Tracks start past routing) {world : World} (hkeeps : Keeps routing.world world)
    {config : Config} {file : Option (Sink File)} (hserves : Serves world (config.outlet file)) :
    Tracks start (past ++ [(.installPassing config, .installed file)])
      { routing with world, passing := config.outlet file :: routing.passing } := by
  refine ⟨?_, ?_, ?_, fun sink => (hkeeps.lines sink).trans (h.lines_concat rfl _ sink)⟩
  · rw [History.passing_concat, h.passing]
  · rw [History.lasting_concat]
    exact h.lasting.trans Option.or_none.symm
  · rw [History.passing_concat, History.lasting_concat]
    rintro other (hother | hother)
    · rcases List.mem_cons.mp hother with rfl | hother
      · exact hserves
      · exact hkeeps.serves (h.serves other (Or.inl hother))
    · exact hkeeps.serves (h.serves other (Or.inr (Option.or_none.symm.trans hother)))

theorem dropPassing (h : Tracks start past routing) (answer : Answer File) :
    Tracks start (past ++ [(.dropPassing, answer)]) { routing with passing := routing.passing.tail } := by
  refine ⟨?_, ?_, ?_, h.lines_concat rfl answer⟩
  · rw [History.passing_concat, h.passing]
  · rw [History.lasting_concat]
    exact h.lasting.trans Option.or_none.symm
  · rw [History.passing_concat, History.lasting_concat]
    rintro other (hother | hother)
    · exact h.serves other (Or.inl (List.mem_of_mem_tail hother))
    · exact h.serves other (Or.inr (Option.or_none.symm.trans hother))

variable [LawfulOutputs World File]

/-- Events go to the log that the history names, or nowhere. -/
theorem emit (h : Tracks start past routing) (events : List Event) (answer : Answer File) :
    Tracks start (past ++ [(.emit events, answer)]) (routing.emitAll events) := by
  have hsame := sameLogs_emitAll routing events
  have hpassing : History.passing (past ++ [(.emit events, answer)]) = past.passing := by rw [History.passing_concat]
  have hlasting : History.lasting (past ++ [(.emit events, answer)]) = past.lasting := by
    rw [History.lasting_concat, Option.or_none]
  refine ⟨?_, ?_, ?_, fun sink => ?_⟩
  · rw [hsame.passing, h.passing, hpassing]
  · rw [hsame.lasting, h.lasting, hlasting]
  · rw [hpassing, hlasting]
    exact fun outlet houtlet => hsame.serves (h.serves outlet houtlet)
  -- The log at hand is the one that the history names, and its sinks are there to be written to.
  · cases hcurrent : past.current with
    | none =>
      rw [emitAll_of_none (h.current?.trans hcurrent)]
      refine h.lines_concat ?_ answer sink
      rw [History.delivered, hcurrent]
      rfl
    | some outlet =>
      have hdelivered : past.delivered (.emit events) = events.map fun event => (outlet, event) := by
        rw [History.delivered, hcurrent, Option.toList_some, List.flatMap_singleton]
      rw [linesAt_emitAll (h.current?.trans hcurrent) (h.serves_current hcurrent), h.lines sink,
        History.deliveries_concat, hdelivered, History.linesTo, History.linesTo, List.flatMap_append, List.flatMap_map,
        List.append_assoc]

theorem step (h : Tracks start past routing) (step : Step) :
    Tracks start (past ++ [(step, (routing.step step).2)]) (routing.step step).1 := by
  cases step with
  | installLasting config =>
    rw [Routing.step]
    rcases installLasting_cases routing config with
      ⟨file, world, -, hnone, hkeeps, hserves, heq⟩ | ⟨-, failure, world, hkeeps, heq⟩
    · rw [heq]
      exact h.installLasting hkeeps hserves hnone
    · rw [heq]
      exact h.fail (stays_of_keeps hkeeps) (Or.inl ⟨config, rfl⟩) failure
  | installPassing config =>
    rw [Routing.step]
    rcases installPassing_cases routing config with
      ⟨file, world, -, hkeeps, hserves, heq⟩ | ⟨-, failure, world, hkeeps, heq⟩
    · rw [heq]
      exact h.installPassing hkeeps hserves
    · rw [heq]
      exact h.fail (stays_of_keeps hkeeps) (Or.inr ⟨config, rfl⟩) failure
  | dropPassing => exact h.dropPassing _
  | emit events => exact h.emit events _

theorem run (h : Tracks start past routing) (steps : List Step) :
    Tracks start (past ++ steps.zip (routing.run steps).2) (routing.run steps).1 := by
  induction steps generalizing past routing with
  | nil =>
    rw [List.zip_nil_left, List.append_nil]
    exact h
  | cons first rest ih =>
    have hrest := ih (h.step first)
    rw [List.append_assoc, List.singleton_append] at hrest
    exact hrest

omit [LawfulOutputs World File] in
/-- Where nothing is installed nothing has happened. -/
theorem nil (hlasting : start.lasting = none) (hpassing : start.passing = []) : Tracks start [] start := by
  refine ⟨hpassing, hlasting, ?_, fun sink => (List.append_nil _).symm⟩
  rintro outlet (houtlet | houtlet) <;> cases houtlet

end Tracks

/-! ### Runs -/

section Run
variable [Outputs World File] {start : Routing World File} {steps : List Step} {i j : Nat} {step : Step}
  {config : Config} {file : Option (Sink File)}

/-- What a routing is before the step at `i` of a run. -/
def before (start : Routing World File) (steps : List Step) (i : Nat) : Routing World File :=
  (start.run (steps.take i)).1

variable [LawfulOutputs World File]

end Run

end Routing
end Allotment.Log
