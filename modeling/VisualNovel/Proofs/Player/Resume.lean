import VisualNovel.Asset.FileLoader
import VisualNovel.Proofs.Player.Course
import VisualNovel.Proofs.Player.Saves
import VisualNovel.Stage.Console

/-
  Coming back to a run. A save point keeps a label and a page, and a new player that resumes there
  with the parameters of the run stands where the run stood, but without the blocks that were open
  and without the choices that were collected. Both runs tell the story from there on, each with
  its own board, and they tell the same exactly if the two boards have the same course
  (`resume_continues`).
-/

namespace VisualNovel.Player

open Asset (FileLoader Loader)
open Command (Board Factory IfStack Settings)
open Scenario (Corpus Library TableSource)
open Stage (Console SavePoint)
open Table (CellTable)

variable {σ ℓ ς : Type}

variable [Stage σ] [Loader ℓ] [TableSource ς]

/-! ## The place of a run -/

omit [Stage σ] [Loader ℓ] [TableSource ς] in
/-- Where a run stands in the section of a label is where one is entered that resumes there. -/
theorem StandsAt.entry_eq {p : Player σ ℓ ς} (hp : Placed p) {f : Factory} {settings : Settings}
    {t : CellTable} {point : SavePoint}
    (hclean : (Scenario.compile f settings t).diagnostics = [])
    (hat : StandsAt p (Scenario.compile f settings t) point) (hl : p.cursor.label = point.label) :
    entry (Scenario.compile f settings t) point.label point.page = p.cursor := by
  obtain ⟨m, hm⟩ := hp.section hat.toStands
  obtain ⟨⟨c, hc, hcl⟩, -, hpage⟩ := hm.page
  rw [behind_of_idle hat.idle] at hpage
  have hcompiled : (Scenario.compile f settings t).Compiled := ⟨f, settings, t, rfl⟩
  obtain ⟨m', hm'⟩ := Scenario.labelIndex?_of_seek hat.seek
  obtain ⟨⟨d, hd, hdl⟩, -⟩ := hcompiled.labelIndex?_eq_some.mp hm'
  obtain rfl : m = m' := Scenario.label_unique hclean hc (hl ▸ hcl) hd hdl
  obtain ⟨-, hcount, -⟩ := Scenario.boundaries_of_seek hm' hat.seek
  unfold entry
  rw [hat.seek]
  dsimp only
  rw [← hcount, ← hpage, ← hl]

omit [Stage σ] [Loader ℓ] [TableSource ς] in
theorem index_entry {s : Scenario} {point : SavePoint} {j : Nat}
    (hj : s.seek point.label point.page = .ok j) :
    (entry s point.label point.page).index = j := by
  unfold entry
  rw [hj]

/-- A label's command makes a run forget which label and page it was in. -/
theorem tell_of_label {c : Command} {l : String} (hl : c.label? = some l) (rest : List Command)
    {b : Board} (hskip : b.ifStack.skips c.isConditional = false) {cur cur' : Cursor}
    (hindex : cur.index = cur'.index) (answers : List Answer) :
    tell (c :: rest) b cur answers = tell (c :: rest) b cur' answers := by
  have henter : cur.enter c = cur'.enter c := by
    simp [Cursor.enter, hl, hindex]
  rw [tell, tell, if_neg (by simp [hskip]), if_neg (by simp [hskip])]
  cases answers with
  | nil => rfl
  | cons answer answers =>
    cases answer with
    | picked => rfl
    | usable flags => simp only [tellLoaded, henter]

omit [Stage σ] [Loader ℓ] [TableSource ς] in
/-- The story of a run is that of one that resumes where it stands, whatever the answers, exactly
    if the open blocks and the choices make no difference. -/
theorem StandsAt.tell_iff {p : Player σ ℓ ς} (hp : Placed p) (hrequests : p.board.requests = [])
    {f : Factory} {settings : Settings} {t : CellTable} {point : SavePoint}
    (hclean : (Scenario.compile f settings t).diagnostics = [])
    (hat : StandsAt p (Scenario.compile f settings t) point) :
    (∀ answers,
      tell ((Scenario.compile f settings t).commands.drop p.cursor.index) p.board p.cursor
          answers =
        tell ((Scenario.compile f settings t).commands.drop p.cursor.index)
          (.ofParams p.board.params) (entry (Scenario.compile f settings t) point.label point.page)
          answers) ↔
      course ((Scenario.compile f settings t).commands.drop p.cursor.index) p.board =
        course ((Scenario.compile f settings t).commands.drop p.cursor.index)
          (.ofParams p.board.params) := by
  have halike : Alike p.board (.ofParams p.board.params) := ⟨rfl, hrequests⟩
  rcases hat.label with hl | ⟨c, hc, hcl⟩
  · rw [hat.entry_eq hp hclean hl]
    exact ⟨course_of_tell _ halike _, fun hcourse => tell_congr _ halike hcourse _⟩
  · obtain ⟨hlt, rfl⟩ := List.getElem?_eq_some_iff.mp hc
    rw [List.drop_eq_getElem_cons hlt]
    have hempty : (Board.ofParams p.board.params).ifStack.skips
        (Scenario.compile f settings t).commands[p.cursor.index].isConditional = false := by
      simp [Board.ofParams, IfStack.empty, IfStack.skips, IfStack.isSuppressed]
    cases hskip : p.board.ifStack.skips
      (Scenario.compile f settings t).commands[p.cursor.index].isConditional with
    | true =>
      constructor
      · intro htell
        have hfirst := htell []
        rw [tell, tell, hskip, hempty] at hfirst
        cases hfirst
      · intro hcourse
        rw [course, course, hskip, hempty] at hcourse
        cases (List.cons.inj hcourse).1
    | false =>
      have hforget := tell_of_label hcl
        ((Scenario.compile f settings t).commands.drop (p.cursor.index + 1)) hskip
        (index_entry hat.seek).symm
      constructor
      · exact fun htell => course_of_tell _ halike _ fun answers =>
          (hforget answers).symm.trans (htell answers)
      · exact fun hcourse answers =>
          (hforget answers).trans (tell_congr _ halike hcourse _ answers)

/-! ## A new player -/

/-- If a source has loaded the table of a label, it is `t`. -/
def Gives (label : String) (t : CellTable) (source : ς) : Prop :=
  TableSource.isLoaded source label = true → TableSource.table? source label = some t

/-- A player without scenarios waits for the table of a label, which is `t`. -/
structure Awaits (r : Player σ ℓ ς) (f : Factory) (settings : Settings) (t : CellTable)
    (label : String) (page : Int) : Prop where
  state : r.state = .loading label page
  idle : r.active? = none
  corpus : r.corpus = .ofSettings f settings
  source : Gives label t r.source

/-- A player that waited for the table of a label has entered a run of its scenario. -/
structure Enters (r q : Player σ ℓ ς) (s : Scenario) (label : String) (page : Int) : Prop where
  stands : q.Stands s
  cursor : q.cursor = entry s label page
  board : q.board = r.board
  events : q.events = r.events ++ [.turn (.entered s q.cursor)]

section

variable {r : Player σ ℓ ς} {f : Factory} {settings : Settings} {t : CellTable} {label : String}
  {page : Int} (hr : Awaits r f settings t label page)
  (hlabel : ((Scenario.compile f settings t).labelIndex? label).isSome)
include hr hlabel

omit [Stage σ] [Loader ℓ] in
theorem Awaits.fetch (hloaded : TableSource.isLoaded r.source label = true) :
    r.corpus.fetch r.source label =
      (⟨f, settings, [Scenario.compile f settings t]⟩, some (Scenario.compile f settings t)) := by
  rw [hr.corpus]
  unfold Corpus.fetch
  simp only [Corpus.scenario?, Corpus.ofSettings, List.find?_nil, hr.source hloaded, Corpus.compile,
    Corpus.named?, List.nil_append, List.find?_cons, hlabel]

/-- A tick of a player that waits for a table plays from the page on if the table is there. -/
theorem Awaits.tick :
    TableSource.isLoaded r.source label = false ∧ r.tick.1 = r ∨
      ∃ q, Enters r q (Scenario.compile f settings t) label page ∧
        r.tick = playFrom ((Scenario.compile f settings t).commands.drop q.cursor.index) q := by
  cases hloaded : TableSource.isLoaded r.source label with
  | false =>
    refine Or.inl ⟨rfl, ?_⟩
    unfold Player.tick
    rw [hr.state]
    dsimp only
    rw [hloaded]
    rfl
  | true =>
    refine Or.inr ⟨{ r with corpus := ⟨f, settings, [Scenario.compile f settings t]⟩ }.enterScenario
      (Scenario.compile f settings t) label page, ?_⟩
    rw [tick_of_loaded hr.state hloaded]
    unfold enter
    rw [hr.fetch hlabel hloaded, enterScenario_eq]
    refine ⟨⟨⟨rfl, rfl, hr.idle⟩, rfl, rfl, events_append rfl⟩, ?_⟩
    unfold play
    dsimp only
    rw [enterScenario_eq]
    dsimp only
    rw [hr.idle]

/-- What it passes through then is in the scenario of the table. -/
theorem Awaits.scenario_of_station {q : Player σ ℓ ς} (hq : q ∈ r.stations) :
    q.scenario? = some (Scenario.compile f settings t) := by
  unfold stations at hq
  rw [hr.state] at hq
  dsimp only at hq
  split at hq
  · rename_i hloaded
    rw [hr.fetch hlabel hloaded] at hq
    refine (stationsIn_passes ?_ ?_ hq).stands.scenario <;> rw [enterScenario_eq]
  · cases hq

end

/-- Without a tick a player that waits for a table goes on waiting. -/
theorem Awaits.unticked {r : Player σ ℓ ς} {f : Factory} {settings : Settings} {t : CellTable}
    {label : String} {page : Int} (hr : Awaits r f settings t label page) {i : Input σ ℓ ς}
    (hi : Answering (Gives label t) i) (htick : i ≠ .tick) :
    Awaits (r.after i) f settings t label page ∧ (r.after i).events = r.events ∧
      (r.after i).board = r.board := by
  cases hi with
  | tick => exact absurd rfl htick
  | stage | loader => exact ⟨⟨hr.state, hr.idle, hr.corpus, hr.source⟩, rfl, rfl⟩
  | source hsource => exact ⟨⟨hr.state, hr.idle, hr.corpus, hsource⟩, rfl, rfl⟩

/-- No tick among inputs finds the table of a label. -/
def Unfound (r : Player σ ℓ ς) (label : String) (inputs : List (Input σ ℓ ς)) : Prop :=
  ∀ xs ys, inputs = xs ++ .tick :: ys → TableSource.isLoaded (r.afterAll xs).source label = false

theorem Unfound.cons {r : Player σ ℓ ς} {label : String} {i : Input σ ℓ ς}
    {inputs : List (Input σ ℓ ς)} (hi : i = .tick → TableSource.isLoaded r.source label = false)
    (h : Unfound (r.after i) label inputs) : Unfound r label (i :: inputs) := by
  intro xs ys hsplit
  cases xs with
  | nil => exact hi (List.cons.inj hsplit).1
  | cons x xs =>
    obtain ⟨rfl, hrest⟩ := List.cons.inj hsplit
    exact h xs ys hrest

/-- A new player that is left to itself waits until a tick finds the table, and then plays from
    the page on. -/
theorem Awaits.afterAll {r : Player σ ℓ ς} {f : Factory} {settings : Settings} {t : CellTable}
    {label : String} {page : Int} (hr : Awaits r f settings t label page)
    (hlabel : ((Scenario.compile f settings t).labelIndex? label).isSome)
    {inputs : List (Input σ ℓ ς)} (hinputs : ∀ i ∈ inputs, Answering (Gives label t) i) :
    (r.afterAll inputs).events = r.events ∧ Unfound r label inputs ∨
      ∃ q, Enters r q (Scenario.compile f settings t) label page ∧
        ∃ later : List (Input σ ℓ ς), (∀ i ∈ later, Answering (Gives label t) i) ∧
          r.afterAll inputs =
            (playFrom ((Scenario.compile f settings t).commands.drop q.cursor.index)
              q).1.afterAll later := by
  induction inputs generalizing r with
  | nil => exact Or.inl ⟨rfl, fun xs ys h => absurd h (by simp)⟩
  | cons i inputs ih =>
    have hrest := fun i hi => hinputs i (List.mem_cons_of_mem _ hi)
    rw [afterAll_cons]
    by_cases htick : i = .tick
    · subst htick
      rcases hr.tick hlabel with ⟨hloaded, hsame⟩ | ⟨q, henters, hplays⟩
      · have hafter : r.after .tick = r := hsame
        rcases ih hr hrest with ⟨hevents, hunfound⟩ | hentered
        · refine Or.inl ⟨by rw [hafter, hevents], .cons (fun _ => hloaded) ?_⟩
          rw [hafter]
          exact hunfound
        · rw [hafter]
          exact Or.inr hentered
      · exact Or.inr ⟨q, henters, inputs, hrest, by rw [after, hplays]⟩
    · obtain ⟨hwaits, hevents, hboard⟩ := hr.unticked (hinputs i List.mem_cons_self) htick
      rcases ih hwaits hrest with ⟨hsame, hunfound⟩ | ⟨q, henters, hlater⟩
      · exact Or.inl ⟨hsame.trans hevents, hunfound.cons fun h => absurd h htick⟩
      · exact Or.inr ⟨q, ⟨henters.stands, henters.cursor, henters.board.trans hboard,
          by rw [henters.events, hevents]⟩, hlater⟩

/-! ## The same story -/

/-- What happens in a run from a state of it on, up to where another run is asked for. -/
def heard (p q : Player σ ℓ ς) : List Event := ofRun (q.events.drop p.events.length)

omit [Stage σ] [Loader ℓ] [TableSource ς] in
theorem heard_of_events {p q : Player σ ℓ ς} {es : List Event} (h : q.events = p.events ++ es) :
    heard p q = ofRun es := by
  rw [heard, h, List.drop_left]

/-- A run that goes on from where it stands tells its story. -/
theorem heard_of_passes {S : ς → Prop} {p q : Player σ ℓ ς} {s : Scenario} (h : Passes p q s p.tick)
    {more : List (Input σ ℓ ς)} (hmore : ∀ i ∈ more, Answering S i) :
    toldOf (heard q (p.tick.1.afterAll more)) =
      tell (s.commands.drop q.cursor.index) q.board q.cursor
        (answersOf (heard q (p.tick.1.afterAll more))) := by
  obtain ⟨es, hes, htale⟩ := stands_afterAll h.stands hmore
  rw [h.result, heard_of_events hes, ← tale_stands h.stands, htale]

/-- A new player tells the story from the page on, once the table is there. -/
theorem Awaits.heard {r : Player σ ℓ ς} {f : Factory} {settings : Settings} {t : CellTable}
    {label : String} {page : Int} (hr : Awaits r f settings t label page)
    (hlabel : ((Scenario.compile f settings t).labelIndex? label).isSome)
    {more : List (Input σ ℓ ς)} (hmore : ∀ i ∈ more, Answering (Gives label t) i) :
    heard r (r.afterAll more) = [] ∧ Unfound r label more ∨
      toldOf (heard r (r.afterAll more)) =
        tell ((Scenario.compile f settings t).commands.drop
            (entry (Scenario.compile f settings t) label page).index) r.board
          (entry (Scenario.compile f settings t) label page)
          (answersOf (heard r (r.afterAll more))) := by
  rcases hr.afterAll hlabel hmore with
    ⟨hevents, hunfound⟩ | ⟨q, ⟨hstands, hcursor, hboard, hevents⟩, later, hlater, hafter⟩
  · refine Or.inl ⟨?_, hunfound⟩
    rw [heard_of_events (hevents.trans (List.append_nil _).symm)]
    rfl
  · obtain ⟨es, hes, htale⟩ := stands_afterAll hstands hlater
    have hsince : (r.afterAll more).events =
        r.events ++ .turn (.entered (Scenario.compile f settings t) q.cursor) :: es := by
      rw [hafter, hes, hevents, List.append_assoc]
      rfl
    have hheard : Player.heard r (r.afterAll more) =
        .turn (.entered (Scenario.compile f settings t) q.cursor) :: ofRun es := by
      rw [heard_of_events hsince]
      rfl
    have htold := htale.symm
    rw [tale_stands hstands, hcursor, hboard] at htold
    exact Or.inr (by rw [hheard]; exact htold)

/-- What is told first of the same story is told of the cues. -/
theorem cuesOf_prefix {es fs : List Event} (h : toldOf es <+: toldOf fs) :
    cuesOf es <+: cuesOf fs := by
  rw [← cuesOf_toldOf es, ← cuesOf_toldOf fs]
  exact h.filterMap _

/-- Resuming continues the story, as far as a save point can tell it. A run that stands where a
    save point leads and a new player that resumes there with its parameters both tell the story
    of the commands from there on, but the new one has a board with nothing on it but the
    parameters. The two stories are the same, whatever the answers, exactly if the open blocks and
    the collected choices make no difference to what is passed over and what menus show; then the
    cues are the same as long as the answers are. -/
theorem resume_continues (stage : σ) (loader : ℓ) (source : ς) (factory : Factory)
    (settings : Settings) (cap : Nat) (params : Expression.Params) (galleryLabels : List String)
    (history? : Option History.ReadHistory) (inputs : List (Input σ ℓ ς)) {p : Player σ ℓ ς}
    (hp : p ∈ ((ready stage loader source (.ofSettings factory settings) cap params galleryLabels
      history?).afterAll inputs).stations)
    {factory' : Factory} {settings' : Settings} {t : CellTable} {point : SavePoint}
    (hclean : (Scenario.compile factory' settings' t).diagnostics = [])
    (hat : StandsAt p (Scenario.compile factory' settings' t) point)
    (hbare : bareLabel point.label = point.label)
    (stage' : σ) (loader' : ℓ) {source' : ς}
    (hsource : Gives point.label t (TableSource.request source' point.label)) (cap' : Nat)
    (galleryLabels' : List String) (history?' : Option History.ReadHistory)
    {more more' : List (Input σ ℓ ς)} (hmore : ∀ i ∈ more, Answering (fun _ => True) i)
    (hmore' : ∀ i ∈ more', Answering (Gives point.label t) i) :
    let s := Scenario.compile factory' settings' t
    let rest := s.commands.drop p.cursor.index
    let bare := Board.ofParams p.board.params
    let run := (ready stage loader source (.ofSettings factory settings) cap params galleryLabels
      history?).afterAll inputs
    let fresh := (ready stage' loader' source' (.ofSettings factory' settings') cap'
      p.board.params galleryLabels' history?').resume point
    let old := heard p (run.tick.1.afterAll more)
    let new := heard fresh (fresh.afterAll more')
    toldOf old = tell rest p.board p.cursor (answersOf old) ∧
    (new = [] ∧ Unfound fresh point.label more' ∨
      toldOf new = tell rest bare (entry s point.label point.page) (answersOf new)) ∧
    ((∀ answers, tell rest p.board p.cursor answers =
        tell rest bare (entry s point.label point.page) answers) ↔
      course rest p.board = course rest bare) ∧
    (course rest p.board = course rest bare →
      (answersOf new <+: answersOf old → cuesOf new <+: cuesOf old) ∧
      (new ≠ [] → answersOf old <+: answersOf new → cuesOf old <+: cuesOf new)) := by
  intro s rest bare run fresh old new
  obtain ⟨s', hpasses, hplaced, hrequests⟩ := station_of_run stage loader source factory settings
    cap params galleryLabels history? inputs hp
  obtain rfl : s' = s := Option.some.inj (hpasses.stands.scenario.symm.trans hat.scenario)
  have hlabel : (s.labelIndex? point.label).isSome := by
    obtain ⟨m, hm⟩ := Scenario.labelIndex?_of_seek hat.seek
    rw [hm]
    rfl
  have hfresh : Awaits fresh factory' settings' t point.label point.page := by
    have hasked : fresh = (ready stage' loader' source' (.ofSettings factory' settings') cap'
        p.board.params galleryLabels' history?').begin point.label point.page
          (if galleryLabels'.contains point.label then some point.label else none) := by
      change Player.begin _ (bareLabel point.label) point.page _ = _
      rw [hbare]
      rfl
    rw [hasked, begin_eq]
    exact ⟨rfl, rfl, rfl, hsource⟩
  have hold : toldOf old = tell rest p.board p.cursor (answersOf old) :=
    heard_of_passes hpasses hmore
  have hnew : new = [] ∧ Unfound fresh point.label more' ∨
      toldOf new = tell rest bare (entry s point.label point.page) (answersOf new) := by
    have hheard := hfresh.heard hlabel hmore'
    rw [index_entry hat.seek] at hheard
    have hboard : fresh.board = bare := by
      change (Player.start _ _ _ _).board = _
      unfold start
      rw [begin_eq]
      rfl
    rw [hboard] at hheard
    exact hheard
  have hiff := hat.tell_iff hplaced hrequests hclean
  refine ⟨hold, hnew, hiff, fun hcourse => ⟨fun hprefix => ?_, fun hentered hprefix => ?_⟩⟩
  · rcases hnew with ⟨hnil, -⟩ | hnew
    · rw [hnil]
      exact List.nil_prefix
    · refine cuesOf_prefix ?_
      rw [hnew, hold, hiff.mpr hcourse]
      exact grows_tell _ _ _ _ _ hprefix
  · rcases hnew with ⟨hnil, -⟩ | hnew
    · exact absurd hnil hentered
    · refine cuesOf_prefix ?_
      rw [hnew, hold, hiff.mpr hcourse]
      exact grows_tell _ _ _ _ _ hprefix

/-! ## A short script -/

omit [Stage σ] [Loader ℓ] [TableSource ς]

/-- A player of one table on a console. -/
def alone (t : CellTable) (params : Expression.Params) : Player Console FileLoader Library :=
  ready (.ofPicks []) (.ofRoot ⟨[], []⟩ "") (Library.empty.insert t true)
    (.ofSettings .standard .standard) 4 params [] none

/-- A label with two pages. -/
def twoPages : CellTable :=
  .ofRows "t" [["Command", "Text"], ["*a", ""], ["", "one"], ["", "two"]]

theorem second_page_resumes :
    ∃ p ∈ ((alone twoPages ∅).afterAll [.start "a" 0 none]).stations, p.cursor = ⟨"a", 2, 0⟩ ∧
      cuesOf (heard ((alone twoPages p.board.params).resume ⟨"a", 1⟩)
          (((alone twoPages p.board.params).resume ⟨"a", 1⟩).afterAll [.tick])) <+:
        cuesOf (heard p (((alone twoPages ∅).afterAll [.start "a" 0 none]).tick.1.afterAll
          [.tick])) := by
  have hclean : (Scenario.compile .standard .standard twoPages).diagnostics = [] := by
    decide +kernel
  have hseek : (Scenario.compile .standard .standard twoPages).seek "a" 1 = .ok 2 := rfl
  have hsource : Gives "a" twoPages
      (TableSource.request (Library.empty.insert twoPages true) "a") := fun _ => by decide +kernel
  have hticks : ∀ S : Library → Prop, ∀ i ∈ [.tick],
      Answering (σ := Console) (ℓ := FileLoader) S i := by
    intro S i hi
    obtain rfl := List.mem_singleton.mp hi
    exact .tick
  obtain ⟨p, hp, hcursor, hcourse, hanswers⟩ :
      ∃ p ∈ ((alone twoPages ∅).afterAll [.start "a" 0 none]).stations, p.cursor = ⟨"a", 2, 0⟩ ∧
        course ((Scenario.compile .standard .standard twoPages).commands.drop p.cursor.index)
            p.board =
          course ((Scenario.compile .standard .standard twoPages).commands.drop p.cursor.index)
            (.ofParams p.board.params) ∧
        answersOf (heard ((alone twoPages p.board.params).resume ⟨"a", 1⟩)
            (((alone twoPages p.board.params).resume ⟨"a", 1⟩).afterAll [.tick])) <+:
          answersOf (heard p (((alone twoPages ∅).afterAll [.start "a" 0 none]).tick.1.afterAll
            [.tick])) := by
    decide +kernel
  have hwaits : Awaits ((alone twoPages ∅).afterAll [.start "a" 0 none]) .standard .standard
      twoPages "a" 0 := ⟨rfl, rfl, rfl, hsource⟩
  obtain ⟨s, hpasses⟩ := stations_passes hp
  have hat : StandsAt p (Scenario.compile .standard .standard twoPages) ⟨"a", 1⟩ :=
    { state := hpasses.stands.state
      scenario := hwaits.scenario_of_station rfl hp
      idle := hpasses.stands.idle
      seek := by
        rw [hcursor]
        exact hseek
      label := Or.inl (by rw [hcursor]) }
  have hboth := resume_continues (Console.ofPicks []) (FileLoader.ofRoot ⟨[], []⟩ "")
    (Library.empty.insert twoPages true) .standard .standard 4 ∅ [] none [.start "a" 0 none] hp
    hclean hat (by decide +kernel) (Console.ofPicks []) (FileLoader.ofRoot ⟨[], []⟩ "") hsource 4
    [] none (hticks _) (hticks _)
  exact ⟨p, hp, hcursor, (hboth.2.2.2 hcourse).1 hanswers⟩

/-- A label with two pages in a branch that is taken and one in a branch that is not. -/
def twoBranches : CellTable :=
  .ofRows "t" [["Command", "Arg1", "Text"], ["*a"], ["If", "true"], ["", "", "one"],
    ["", "", "two"], ["Else"], ["", "", "three"], ["EndIf"]]

-- who comes back to the second page does not know that its block was opened
example : ∃ p ∈ ((alone twoBranches ∅).afterAll [.start "a" 0 none]).stations,
    p.cursor = ⟨"a", 3, 0⟩ ∧
      course ((Scenario.compile .standard .standard twoBranches).commands.drop 3) p.board =
        [some [], some [], none, some []] ∧
      course ((Scenario.compile .standard .standard twoBranches).commands.drop 3)
          (.ofParams p.board.params) = [some [], some [], some [], some []] := by
  decide +kernel

end VisualNovel.Player
