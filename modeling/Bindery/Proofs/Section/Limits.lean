import Bindery.Proofs.Section.Evolution
import Bindery.Proofs.Section.IncludeGraph
import Mathlib.Algebra.Group.Nat.Defs
import Mathlib.Data.List.Chain

/-!
# `Proofs.Section.Limits` — following includes comes to an end

What is followed is up to the files, and these may include each other in circles or go on for ever. The recursion ends all the
same, because a page carries the depth that it was read at, and nothing below the limit is read. Here the recursion
is written as it is asked of a page, with the limit tested against the depth of the page itself. A computation is a
finite thing whatever it is answered, so the recursion ends if there is a computation that satisfies it; and there
is exactly one.

## Contents
- `followEntry`, `Completion`: the recursion, as an equation.
- `Completion.eq`, `completion_completePage`: it has one solution.
- `CompileM.Loads`: which documents a computation loads, and where.
- `Permitted`, `follow_loads`: the documents that following includes may load.
- `resolve_ends_within_limits`: following includes ends, and stays within its limits.
-/

namespace Bindery

variable {σ : Type} [Store σ] {store : σ} {settings : Settings}

/-! ## The recursion -/

/-- What an entry of the document at `parent` leads to, where `below` completes a page that a chain of documents led
to. -/
def followEntry (settings : Settings) (below : List DocumentPath → Page → CompileM Section)
    (chain : List DocumentPath) (parent : Coordinate) (index : Nat) (entry : Entry) :
    CompileM (Option Section) :=
  if settings.maxIncludeDepth ≤ parent.depth then
    throw (Fault.toFailure ⟨.includeTooDeep settings.maxIncludeDepth entry.path, entry.location⟩)
  else if settings.checkIncludeCycles && chain.contains entry.path then
    throw (Fault.toFailure ⟨.includeCycle (chain ++ [entry.path]), entry.location⟩)
  else CompileM.inScope do
    modify (·.set Table.sourceKey (.path entry.path))
    let document : Coordinate := ⟨entry.path.text, parent.depth + 1, index⟩
    match ← loadPage entry.path (chain ++ [entry.path]) document with
    | none => return none
    | some page => return some (← below (chain ++ [entry.path]) page)

/-- A page is completed by following its entries, from the depth that it carries. -/
def Completion (settings : Settings) (below : List DocumentPath → Page → CompileM Section) : Prop :=
  ∀ chain page, below chain page = page.fill (followEntry settings below chain page.start.document)

/-- The document at `path` with all it includes, where `below` completes pages. -/
def resolveBy (below : List DocumentPath → Page → CompileM Section) (path : DocumentPath) :
    CompileM (Option Section) := do
  match ← loadPage path [path] ⟨path.text, 1, 1⟩ with
  | none => return none
  | some page => return some (← below [path] page)

/-! ## What comes after a page was loaded -/

theorem FileM.ReadsTo.bind_congr {P : α → Prop} {x : FileM α} {f g : α → FileM β} (h : x.ReadsTo P)
    (hfg : ∀ a, P a → f a = g a) : (x >>= f) = (x >>= g) := by
  show FileM.bind x f = FileM.bind x g
  induction x with
  | done value => exact hfg value h
  | read path chain next ih =>
    show FileM.read path chain _ = FileM.read path chain _
    congr 1
    funext answer
    exact ih answer (h answer)
  | write path text next ih => cases h

theorem CompileM.ext {x y : CompileM α} (h : ∀ table, x.exec table = y.exec table) : x = y := funext h

/-- A page starts where the document does that it was read from. -/
theorem Page.start_of_ofText {document : Coordinate} {text : String} {table after : Table} {page : Page}
    (h : Page.ofText document text table = (.ok (some page), after)) : page.start = document.start := by
  by_cases hvalid : 1 ≤ document.depth ∧ 1 ≤ document.index
  · obtain ⟨notes, hread, -⟩ := (Page.ofText_eq_ok_iff hvalid.1 hvalid.2).1 h
    exact Page.start_of_said (Page.said_eq_ok_iff.2 ⟨notes, hread⟩)
  · -- nothing is read at a coordinate that does not count from one
    have hbad : document.depth < 1 ∨ document.index < 1 := by omega
    rw [Page.ofText, Source.split, if_pos hbad] at h
    cases h

/-- A page that is loaded starts where its document does, whatever the file holds. -/
theorem loadPage_readsTo (path : DocumentPath) (chain : List DocumentPath) (document : Coordinate)
    (table : Table) :
    ((loadPage path chain document).exec table).ReadsTo fun result =>
      ∀ page, result.1 = .ok (some page) → page.start.document = document := by
  have hload : ((CompileM.ofFile (FileM.load path chain)).exec table).ReadsTo fun _ => True :=
    fun _ => trivial
  rw [loadPage, CompileM.exec_bind]
  refine hload.bind ?_
  rintro ⟨failure | text, middle⟩ -
  · apply FileM.readsTo_pure
    intro page hpage
    cases hpage
  · intro page hpage
    have hstart : page.start = document.start := Page.start_of_ofText (eq_mk_of_fst_eq hpage)
    rw [hstart]
    rfl

/-- Two ways to complete a page that is loaded are the same if they are for pages that start where its document does. -/
theorem loadPage_congr {path : DocumentPath} {chain : List DocumentPath} {document : Coordinate}
    {below below' : Page → CompileM Section}
    (h : ∀ page : Page, page.start.document = document → below page = below' page) :
    (do
      match ← loadPage path chain document with
      | none => return none
      | some page => return some (← below page) : CompileM (Option Section)) =
    (do
      match ← loadPage path chain document with
      | none => return none
      | some page => return some (← below' page)) := by
  apply CompileM.ext
  intro table
  rw [CompileM.exec_bind, CompileM.exec_bind]
  refine (loadPage_readsTo path chain document table).bind_congr ?_
  rintro ⟨failure | page, middle⟩ hpage
  · rfl
  · cases page with
    | none => rfl
    | some page =>
      dsimp only
      rw [h page (hpage page rfl)]

/-! ## The recursion has one solution -/

theorem Page.fill_congr {visit visit' : Nat → Entry → CompileM (Option Section)}
    (h : ∀ index entry, visit index entry = visit' index entry) (page : Page) :
    page.fill visit = page.fill visit' := by
  have hvisit : visit = visit' := by
    funext index entry
    exact h index entry
  rw [hvisit]

/-- An entry is followed in the same way where pages of the next depth are completed in the same way. -/
theorem followEntry_congr {below below' : List DocumentPath → Page → CompileM Section}
    {parent : Coordinate}
    (h : parent.depth < settings.maxIncludeDepth → ∀ chain page,
      page.start.document.depth = parent.depth + 1 → below chain page = below' chain page)
    (chain : List DocumentPath) (index : Nat) (entry : Entry) :
    followEntry settings below chain parent index entry =
      followEntry settings below' chain parent index entry := by
  unfold followEntry
  by_cases hdeep : settings.maxIncludeDepth ≤ parent.depth
  · rw [if_pos hdeep, if_pos hdeep]
  · rw [if_neg hdeep, if_neg hdeep]
    split
    · rfl
    · congr 1
      refine congrArg _ (funext fun _ => ?_)
      apply loadPage_congr
      intro page hpage
      have hdepth : page.start.document.depth = parent.depth + 1 := by rw [hpage]
      exact h (Nat.lt_of_not_le hdeep) _ page hdepth

/-- **The recursion has at most one solution.** The deeper a page, the fewer levels are left to follow. -/
theorem Completion.eq {below below' : List DocumentPath → Page → CompileM Section}
    (h : Completion settings below) (h' : Completion settings below') : below = below' := by
  have hlevels : ∀ (remaining : Nat) (chain : List DocumentPath) (page : Page),
      settings.maxIncludeDepth - page.start.document.depth ≤ remaining →
        below chain page = below' chain page := by
    intro remaining
    induction remaining with
    | zero =>
      intro chain page hremaining
      rw [h chain page, h' chain page]
      apply Page.fill_congr
      apply followEntry_congr
      intro hroom
      omega
    | succ remaining ih =>
      intro chain page hremaining
      rw [h chain page, h' chain page]
      apply Page.fill_congr
      apply followEntry_congr
      intro hroom chain' page' hdepth
      apply ih
      omega
  funext chain page
  exact hlevels _ chain page (Nat.le_refl _)

/-- A page completed by counting down the levels that are left below it. -/
def completePage (settings : Settings) (chain : List DocumentPath) (page : Page) : CompileM Section :=
  page.fill (follow settings (settings.maxIncludeDepth - page.start.document.depth) chain
    page.start.document)

/-- Counting down the levels comes to the same as testing the depth of each page. -/
theorem follow_eq_followEntry (chain : List DocumentPath) (parent : Coordinate) (index : Nat)
    (entry : Entry) :
    follow settings (settings.maxIncludeDepth - parent.depth) chain parent index entry =
      followEntry settings (completePage settings) chain parent index entry := by
  unfold followEntry
  by_cases hdeep : settings.maxIncludeDepth ≤ parent.depth
  · rw [if_pos hdeep, Nat.sub_eq_zero_of_le hdeep]
    rfl
  · obtain ⟨remaining, hremaining⟩ : ∃ remaining,
        settings.maxIncludeDepth - parent.depth = remaining + 1 :=
      ⟨settings.maxIncludeDepth - parent.depth - 1, by omega⟩
    rw [if_neg hdeep, hremaining, follow]
    split
    · rfl
    · congr 1
      refine congrArg _ (funext fun _ => ?_)
      apply loadPage_congr
      intro page hpage
      have hleft : settings.maxIncludeDepth - page.start.document.depth = remaining := by
        rw [hpage]
        show settings.maxIncludeDepth - (parent.depth + 1) = remaining
        omega
      rw [completePage, hleft, hpage]

/-- **The recursion has a solution.** -/
theorem completion_completePage (settings : Settings) :
    Completion settings (completePage settings) := by
  intro chain page
  rw [completePage]
  apply Page.fill_congr
  intro index entry
  exact follow_eq_followEntry chain page.start.document index entry

theorem resolve_eq_resolveBy (settings : Settings) (path : DocumentPath) :
    Section.resolve settings path = resolveBy (completePage settings) path := by
  unfold Section.resolve resolveBy
  apply loadPage_congr
  intro page hpage
  rw [completePage, hpage]

/-! ## Loading documents -/

/-- On the store, the computation does nothing with files but load documents as `P` says: from which path, for which chain
of documents, and at which coordinate. -/
inductive CompileM.Loads (store : σ) (P : DocumentPath → List DocumentPath → Coordinate → Prop) :
    {α : Type} → CompileM α → Prop where
  | silent {α : Type} {x : CompileM α} (h : ∀ table, (x.exec table).events store = []) : Loads store P x
  | load {path : DocumentPath} {chain : List DocumentPath} {document : Coordinate}
      (h : P path chain document) : Loads store P (loadPage path chain document)
  | bind {α β : Type} {x : CompileM α} {f : α → CompileM β} (h : Loads store P x)
      (hf : ∀ a table later after, x.Yields store table a later after → Loads store P (f a)) :
      Loads store P (x >>= f)
  | inScope {α : Type} {x : CompileM α} (h : Loads store P x) : Loads store P (CompileM.inScope x)

theorem FileM.run_snd_of_events {x : FileM α} (h : x.events store = []) : (x.run store).2 = store := by
  cases x with
  | done value => rfl
  | read path chain next => cases h
  | write path text next =>
    rw [FileM.events] at h
    split at h
    · cases h
    · cases h

theorem events_loadPage (path : DocumentPath) (chain : List DocumentPath) (document : Coordinate)
    (table : Table) (store : σ) :
    ((loadPage path chain document).exec table).events store = [.read path.text chain] := by
  rw [loadPage, CompileM.exec_bind, FileM.events_bind]
  have hload : ((CompileM.ofFile (FileM.load path chain)).exec table).events store =
      [.read path.text chain] := rfl
  rw [hload]
  generalize ((CompileM.ofFile (FileM.load path chain)).exec table).run store = run
  obtain ⟨⟨failure | text, middle⟩, later⟩ := run
  · rfl
  · rfl

/-- A computation that only loads documents reads these and leaves the store as it is. -/
theorem CompileM.Loads.events {P : DocumentPath → List DocumentPath → Coordinate → Prop}
    {x : CompileM α} (h : x.Loads store P) (table : Table) :
    (∀ event ∈ (x.exec table).events store, ∃ path chain document,
      P path chain document ∧ event = .read path.text chain) ∧
    ((x.exec table).run store).2 = store := by
  induction h generalizing table with
  | silent h =>
    refine ⟨?_, FileM.run_snd_of_events (h table)⟩
    rw [h table]
    intro event hevent
    cases hevent
  | @load path chain document h =>
    constructor
    · rw [events_loadPage]
      intro event hevent
      exact ⟨path, chain, document, h, List.mem_singleton.1 hevent⟩
    · exact (loadPage_readsTo path chain document table).run_snd store
  | @bind α β x f _ _ ih ihf =>
    obtain ⟨hevents, hstore⟩ := ih table
    rw [CompileM.exec_bind, FileM.events_bind, FileM.run_bind]
    rcases hrun : (x.exec table).run store with ⟨⟨failure | a, middle⟩, later⟩
    · refine ⟨?_, ?_⟩
      · intro event hevent
        rw [List.mem_append] at hevent
        rcases hevent with hevent | hevent
        · exact hevents event hevent
        · cases hevent
      · rw [hrun] at hstore
        exact hstore
    · -- what comes next runs on the same store
      rw [hrun] at hstore
      obtain rfl : later = store := hstore
      obtain ⟨hmore, hlast⟩ := ihf a table later middle hrun middle
      refine ⟨?_, hlast⟩
      intro event hevent
      rw [List.mem_append] at hevent
      rcases hevent with hevent | hevent
      · exact hevents event hevent
      · exact hmore event hevent
  | @inScope α x _ ih =>
    obtain ⟨hevents, hstore⟩ := ih table.push
    have hexec : (CompileM.inScope x).exec table = (x.exec table.push >>= fun result =>
        pure (result.1, result.2.keep table.inner.length)) := rfl
    rw [hexec, FileM.events_bind, FileM.run_bind]
    refine ⟨?_, hstore⟩
    intro event hevent
    rw [FileM.events_pure, List.append_nil] at hevent
    exact hevents event hevent

theorem CompileM.Loads.mono {P Q : DocumentPath → List DocumentPath → Coordinate → Prop}
    {x : CompileM α} (h : x.Loads store P)
    (hPQ : ∀ path chain document, P path chain document → Q path chain document) :
    x.Loads store Q := by
  induction h with
  | silent h => exact .silent h
  | load h => exact .load (hPQ _ _ _ h)
  | bind _ _ ih ihf => exact .bind ih ihf
  | inScope _ ih => exact .inScope ih

/-! ## The documents that may be loaded -/

/-- A document that following includes from `root` may load: its chain leads from the root to it, each document including
the next; it stands as deep as its chain is long; this is within the limit; and if cycles are looked for, no document
comes twice in the chain. -/
structure Permitted (store : σ) (settings : Settings) (root path : DocumentPath)
    (chain : List DocumentPath) (document : Coordinate) : Prop where
  starts : chain.head? = some root
  ends : chain.getLast? = some path
  linked : chain.IsChain (Includes store)
  place : document.path = path.text
  depth : document.depth = chain.length
  limit : document.depth ≤ max 1 settings.maxIncludeDepth
  distinct : settings.checkIncludeCycles = true → chain.Nodup

variable {root path : DocumentPath} {chain : List DocumentPath}

theorem permitted_root (store : σ) (settings : Settings) (root : DocumentPath) :
    Permitted store settings root root [root] ⟨root.text, 1, 1⟩ where
  starts := rfl
  ends := rfl
  linked := .singleton root
  place := rfl
  depth := rfl
  limit := Nat.le_max_left _ _
  distinct _ := List.pairwise_singleton _ root

/-- One level below a document that may be loaded, what it includes may be loaded too, unless the limit is reached or the
chain would come back. -/
theorem Permitted.child {document : Coordinate} (h : Permitted store settings root path chain document)
    {next : DocumentPath} (hincludes : Includes store path next)
    (hroom : document.depth < settings.maxIncludeDepth)
    (hback : settings.checkIncludeCycles = true → next ∉ chain) (index : Nat) :
    Permitted store settings root next (chain ++ [next]) ⟨next.text, document.depth + 1, index⟩ where
  starts := by
    rw [List.head?_append, h.starts]
    rfl
  ends := by rw [List.getLast?_concat]
  linked := by
    refine h.linked.append (.singleton next) ?_
    intro last hlast first hfirst
    rw [h.ends] at hlast
    cases hlast
    cases hfirst
    exact hincludes
  place := rfl
  depth := by rw [List.length_append, h.depth]; rfl
  limit := by
    show document.depth + 1 ≤ max 1 settings.maxIncludeDepth
    omega
  distinct hcheck := by
    refine List.nodup_append.2 ⟨h.distinct hcheck, List.pairwise_singleton _ next, ?_⟩
    intro other hother last hlast heq
    rw [List.mem_singleton.1 hlast] at heq
    exact hback hcheck (heq ▸ hother)

theorem loads_pure {P : DocumentPath → List DocumentPath → Coordinate → Prop} (a : α) :
    (pure a : CompileM α).Loads store P := .silent fun _ => rfl

theorem loads_throw {P : DocumentPath → List DocumentPath → Coordinate → Prop} (failure : Failure) :
    (throw failure : CompileM α).Loads store P := .silent fun _ => rfl

theorem fillEntries_loads {P : DocumentPath → List DocumentPath → Coordinate → Prop}
    {visit : Nat → Entry → CompileM (Option Section)} {entries : List Entry} {index : Nat}
    (hindex : 1 ≤ index)
    (h : ∀ index entry, 1 ≤ index → entry ∈ entries → (visit index entry).Loads store P) :
    (fillEntries visit index entries).Loads store P := by
  induction entries generalizing index with
  | nil => exact loads_pure []
  | cons entry rest ih =>
    rw [fillEntries]
    refine (h index entry hindex List.mem_cons_self).bind fun _ _ _ _ _ => ?_
    have hrest : (fillEntries visit (index + 1) rest).Loads store P := by
      apply ih (by omega)
      intro index other hindex hother
      exact h index other hindex (List.mem_cons_of_mem _ hother)
    exact hrest.bind fun _ _ _ _ _ => loads_pure _

/-- A document with all it includes, where `visit` leads from its entries to what lies below it. -/
theorem page_loads {index depth : Nat} (hindex : 1 ≤ index) (hdepth : 1 ≤ depth)
    (h : Permitted store settings root path chain ⟨path.text, depth, index⟩)
    {visit : Nat → Entry → CompileM (Option Section)}
    (hvisit : ∀ index entry, 1 ≤ index → Includes store path entry.path →
      (visit index entry).Loads store (Permitted store settings root)) :
    CompileM.Loads store (Permitted store settings root) (do
      match ← loadPage path chain ⟨path.text, depth, index⟩ with
      | none => return none
      | some page => return some (← page.fill visit) : CompileM (Option Section)) := by
  refine (CompileM.Loads.load h).bind fun found table later after hfound => ?_
  cases found with
  | none => exact loads_pure none
  | some page =>
    -- only documents that the page includes are visited
    obtain ⟨-, notes, hread, -⟩ := (loadPage_yields_iff hdepth hindex).1 hfound
    have hincludes (entry : Entry) (hentry : entry ∈ page.entries) : Includes store path entry.path :=
      (includes_iff_reads rfl).2 ⟨page, notes, hread, entry, hentry, rfl⟩
    have hentries : (fillEntries visit 1 page.entries).Loads store (Permitted store settings root) := by
      apply fillEntries_loads (Nat.le_refl 1)
      intro index entry hindex hentry
      exact hvisit index entry hindex (hincludes entry hentry)
    have hfill : (page.fill visit).Loads store (Permitted store settings root) :=
      hentries.bind fun _ _ _ _ _ => loads_pure _
    exact hfill.bind fun _ _ _ _ _ => loads_pure _

/-- **Following an entry loads only documents that may be loaded**, as long as the levels that are left are counted
right. -/
theorem follow_loads {remaining index : Nat} {parent : Coordinate} {entry : Entry}
    (h : Permitted store settings root path chain parent)
    (hremaining : remaining = settings.maxIncludeDepth - parent.depth) (hindex : 1 ≤ index)
    (hincludes : Includes store path entry.path) :
    (follow settings remaining chain parent index entry).Loads store
      (Permitted store settings root) := by
  induction remaining generalizing path chain parent index entry with
  | zero => exact loads_throw _
  | succ remaining ih =>
    rw [follow]
    by_cases hback : (settings.checkIncludeCycles && chain.contains entry.path) = true
    · rw [if_pos hback]
      exact loads_throw _
    · rw [if_neg hback]
      have hnew : settings.checkIncludeCycles = true → entry.path ∉ chain := by
        simpa using hback
      have hroom : parent.depth < settings.maxIncludeDepth := by omega
      have hchild := h.child hincludes hroom hnew index
      refine .inScope (.bind (.silent fun _ => rfl) fun _ _ _ _ _ => ?_)
      apply page_loads hindex (Nat.le_add_left 1 _) hchild
      intro below next hbelow hnext
      have hleft : remaining = settings.maxIncludeDepth - (parent.depth + 1) := by omega
      exact ih hchild hleft hbelow hnext

theorem resolve_loads (settings : Settings) (root : DocumentPath) (store : σ) :
    (Section.resolve settings root).Loads store (Permitted store settings root) := by
  apply page_loads (Nat.le_refl 1) (Nat.le_refl 1) (permitted_root store settings root)
  intro index entry hindex hincludes
  exact follow_loads (permitted_root store settings root) rfl hindex hincludes

/-- **Following includes ends, and stays within its limits**, whatever the files hold. The recursion that tests each page
for its own depth has exactly one solution among computations, which are finite whatever they are answered, and
following includes is to complete the first page by it. On the way nothing is done with files but to load documents, each
at the end of a chain of documents that include one another from the first one on. A document is loaded at a
depth that is the length of its chain, and this is one or at most the limit, so it fits into 64 bits if the limit does; and
if cycles are looked for, the documents of the chain are all different. -/
theorem resolve_ends_within_limits {settings : Settings}
    (hsettings : settings.maxIncludeDepth < 2 ^ 64) (root : DocumentPath) (store : σ) :
    (∃! below, Completion settings below) ∧
      (∀ below, Completion settings below → Section.resolve settings root = resolveBy below root) ∧
      (Section.resolve settings root).Loads store (fun path chain document =>
        Permitted store settings root path chain document ∧ document.depth < 2 ^ 64) ∧
      ∀ table, ∀ event ∈ ((Section.resolve settings root).exec table).events store,
        ∃ path chain, event = .read path.text chain ∧ chain.head? = some root ∧
          chain.getLast? = some path ∧ chain.IsChain (Includes store) ∧
          chain.length ≤ max 1 settings.maxIncludeDepth ∧
          (settings.checkIncludeCycles = true → chain.Nodup) := by
  have hsolution := completion_completePage settings
  refine ⟨⟨completePage settings, hsolution, fun below hbelow => hbelow.eq hsolution⟩, ?_, ?_, ?_⟩
  · intro below hbelow
    rw [hbelow.eq hsolution]
    exact resolve_eq_resolveBy settings root
  · refine (resolve_loads settings root store).mono fun path chain document hpermitted => ?_
    refine ⟨hpermitted, ?_⟩
    have hlimit := hpermitted.limit
    omega
  · intro table event hevent
    obtain ⟨path, chain, document, hpermitted, rfl⟩ :=
      ((resolve_loads settings root store).events table).1 event hevent
    refine ⟨path, chain, rfl, hpermitted.starts, hpermitted.ends, hpermitted.linked, ?_,
      hpermitted.distinct⟩
    rw [← hpermitted.depth]
    exact hpermitted.limit

/-- A document that includes itself. -/
def circularShelf : Shelf where
  files := [("/a.dlisp", "(section-meta (title A) (include (1 a.dlisp)))")]
  readOnly := []

/-- Where no cycles are looked for, a document that includes itself is loaded once for every level. -/
theorem resolve_ends_circularShelf :
    (Settings.mk false 3).maxIncludeDepth < 2 ^ 64 ∧
    ((Section.resolve ⟨false, 3⟩ (.resolve "/a.dlisp" "/")).exec Table.new).events circularShelf =
      [.read "/a.dlisp" (List.replicate 1 (.resolve "/a.dlisp" "/")),
        .read "/a.dlisp" (List.replicate 2 (.resolve "/a.dlisp" "/")),
        .read "/a.dlisp" (List.replicate 3 (.resolve "/a.dlisp" "/"))] ∧
    (∃! below, Completion ⟨false, 3⟩ below) ∧
    ∀ event ∈ ((Section.resolve ⟨false, 3⟩ (.resolve "/a.dlisp" "/")).exec Table.new).events
        circularShelf,
      ∃ (path : DocumentPath) (chain : List DocumentPath),
        event = .read path.text chain ∧ chain.length ≤ 3 := by
  have hsettings : (Settings.mk false 3).maxIncludeDepth < 2 ^ 64 := by decide
  obtain ⟨hends, -, -, hevents⟩ :=
    resolve_ends_within_limits hsettings (.resolve "/a.dlisp" "/") circularShelf
  refine ⟨hsettings, by decide +kernel, hends, ?_⟩
  intro event hevent
  obtain ⟨path, chain, heq, -, -, -, hlimit, -⟩ := hevents Table.new event hevent
  exact ⟨path, chain, heq, hlimit⟩

end Bindery
