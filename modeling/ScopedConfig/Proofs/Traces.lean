import ScopedConfig.Proofs.Change
import ScopedConfig.Proofs.Drafts

/-!
# Failures leave no trace

The cache of a service mirrors its store, so it does not matter what a failed call has read. A
request to a directory that fails leaves at most a draft. The steps of a request are those of the
store.
-/

namespace ScopedConfig

open Scope (Path)

namespace Store.Directory

/-! ## The steps answer as the store -/

/-- No directory stands where a draft is to be written. -/
def DraftsFree (mark : String) (d : Directory) : Prop :=
  ∀ name, d.entry? (draftName mark name) ≠ some .directory

/-- The steps give the store's answer and leave a directory that answers as the store's does. -/
inductive Agrees (d : Directory) :
    Except Error (Reply × Store) → Except Error Reply × Directory → Prop where
  | error (e : Error) {d₂ : Directory} (h : Indistinct d d₂) : Agrees d (.error e) (.error e, d₂)
  /-- No directory is made in the store's. -/
  | ok (reply : Reply) {d₁ d₂ : Directory} (h : Indistinct d₁ d₂)
    (hinner : ∀ name, d₁.entry? name = some .directory → d.entry? name = some .directory) :
    Agrees d (.ok (reply, .directory d₁)) (.ok reply, d₂)

section
variable {d : Directory}

theorem inner_withFile {name content other : String}
    (h : entry? (d.withFile name content) other = some .directory) :
    d.entry? other = some .directory := by
  rw [entry?_withFile] at h
  split at h
  · cases h
  · exact h

theorem inner_withoutFiles {names : List String} {other : String}
    (h : entry? (d.withoutFiles names) other = some .directory) :
    d.entry? other = some .directory := by
  rw [entry?_withoutFiles] at h
  split at h
  · exact h
  · cases h

theorem Indistinct.cleared {name : String} (hsorted : Keyed.Sorted d.entries)
    (hplace : d.barePlace = .directory []) (hname : isSnapshotName name = false)
    (hfree : d.entry? name ≠ some .directory) : Indistinct d (d.withoutFiles [name]) where
  root := rfl
  nesting := rfl
  place := hplace
  snapshots := by
    have hfilter : (d.withoutFiles [name]).snapshots =
        d.snapshots.filter fun e => !([name].contains e.1) := List.filter_comm ..
    rw [hfilter, List.filter_eq_self.2]
    intro e he
    have hne : e.1 ≠ name := by
      rintro rfl
      rw [(List.mem_filter.1 he).2] at hname
      cases hname
    simpa using hne
  directories other := by
    rw [entry?_withoutFiles]
    split
    case isTrue => rfl
    case isFalse hother =>
      obtain rfl : other = name := by simpa using hother
      simp [hfree]
  sorted := hsorted
  sorted' := hsorted.filter _

theorem entry?_opened (d : Directory) (name : String) : d.opened.entry? name = d.entry? name := rfl

theorem agrees_save (node : Node) (hsorted : Keyed.Sorted d.entries) (hfree : DraftsFree "" d) :
    Agrees d ((directory d).respond (.save node)) (outcome (perform "" {} (.save node)) d) := by
  have hname := isSnapshotName_fileName node.definedAt
  rw [perform, outcome_bind, writeSnapshot, outcome_bind, outcome_create, respond, Store.save,
    save_eq]
  cases hobstacle : d.obstacle? with
  | some fault => exact .error _ (.refl hsorted)
  | none =>
    have hplace : d.barePlace = .directory [] := by simp [barePlace_eq, hobstacle]
    have hdraft := hfree (fileName node.definedAt)
    have hopened : Indistinct d d.opened := indistinct_opened hsorted hplace
    have hwritten (content : String) : Indistinct d.opened
        (d.opened.withFile (draftName "" (fileName node.definedAt)) content) :=
      .draft hsorted rfl (isSnapshotName_draftName ..) hdraft
    simp only [outcome_replaceFile _ _ _ _ hname, entry?_opened, hdraft, if_false]
    by_cases htarget : d.entry? (fileName node.definedAt) = some .directory
    · simp only [htarget, if_true]
      exact .error _ (hopened.trans (hwritten _))
    · simp only [htarget, if_false]
      refine .ok .done (Indistinct.withFile ?_ _ _) fun name hname => ?_
      · refine hopened.trans ((hwritten _).trans (.cleared ?_ rfl (isSnapshotName_draftName ..) ?_))
        · exact Keyed.sorted_insert _ _ hsorted
        · simp [entry?_withFile]
      · exact inner_withFile hname

theorem agrees_update (node : Node) (loaded : Int) (hsorted : Keyed.Sorted d.entries)
    (hfree : DraftsFree "" d) :
    Agrees d ((directory d).respond (.update node loaded))
      (outcome (perform "" {} (.update node loaded)) d) := by
  have hsave := agrees_save node hsorted hfree
  rw [respond, Store.update, Directory.update, perform, outcome_bind, outcome_ask]
  rw [respond, Store.save, perform] at hsave
  cases hload : d.load node.definedAt with
  | error e => exact .error e (.refl hsorted)
  | ok stored =>
    cases hcheck : checkVersion node.definedAt stored loaded with
    | error e =>
      simp only [bind, Except.bind, hcheck]
      exact .error e (.refl hsorted)
    | ok u =>
      simp only [bind, Except.bind, hcheck]
      exact hsave

theorem agrees_removal (condition : Path → Bool) (hsorted : Keyed.Sorted d.entries) :
    Agrees d
      (((d.removeWhere condition).map fun r => r.map id directory).map fun r => (.count r.1, r.2))
      (outcome (do
        let names ← ask {} (matching condition)
        let count ← removeFiles names
        pure (Reply.count count)) d) := by
  rw [outcome_bind, outcome_ask, removeWhere_eq]
  cases hnames : matching condition d with
  | error e => exact .error e (.refl hsorted)
  | ok names =>
    obtain ⟨hnodup, hplain⟩ := (matching_spec hnames).2 hsorted
    simp only [outcome_bind, removeFiles_plain hnodup hplain]
    refine .ok _ (.refl ?_) fun name hname => ?_
    · split
      · exact hsorted
      · exact hsorted.filter _
    · split at hname
      · exact hname
      · exact inner_withoutFiles hname

theorem agrees_perform (r : Request) (hsorted : Keyed.Sorted d.entries) (hfree : DraftsFree "" d) :
    Agrees d ((directory d).respond r) (outcome (perform "" {} r) d) := by
  cases r with
  | load path =>
    rw [respond, Store.load, perform, outcome_bind, outcome_ask]
    cases d.load path with
    | error e => exact .error e (.refl hsorted)
    | ok stored => exact .ok _ (.refl hsorted) fun _ h => h
  | save node => exact agrees_save node hsorted hfree
  | update node loaded => exact agrees_update node loaded hsorted hfree
  | delete path below =>
    cases below with
    | true =>
      rw [respond, Store.delete, Directory.delete, if_pos rfl]
      exact agrees_removal _ hsorted
    | false =>
      rw [respond, Store.delete, Directory.delete, perform, outcome_bind, outcome_get]
      simp only [Bool.false_eq_true, if_false]
      rcases hentry : d.entry? (fileName path) with _ | (content | _)
      · simp only [ownFiles, hentry]
        exact .ok _ (.refl hsorted) fun _ h => h
      · simp only [ownFiles, outcome_bind, outcome_removeFiles, hentry]
        exact .ok _ (.refl (hsorted.filter _)) fun _ => inner_withoutFiles
      · simp only [ownFiles, outcome_bind, outcome_removeFiles, hentry]
        exact .error _ (.refl hsorted)
  | deleteMentioning name properties => exact agrees_removal _ hsorted
  | list name properties =>
    rw [respond, Store.list, perform, outcome_bind, outcome_ask]
    cases d.list name properties with
    | error e => exact .error e (.refl hsorted)
    | ok paths => exact .ok _ (.refl hsorted) fun _ h => h

theorem answers_eq_responses {requests : List Request} {d' : Directory} (h : Indistinct d d')
    (hfree : DraftsFree "" d) :
    answers "" d' (requests.map fun r => ({}, r)) = (directory d).responses requests := by
  induction requests generalizing d d' with
  | nil => rfl
  | cons r rest ih =>
    obtain ⟨hreply, hafter⟩ := respects_perform "" {} r d d' h
    have hagrees := agrees_perform r h.sorted hfree
    rw [List.map_cons, answers_cons, responses, ← hreply]
    generalize (directory d).respond r = response at hagrees
    generalize outcome (perform "" {} r) d = steps at hagrees hafter
    cases hagrees with
    | error e hsame => exact congrArg (_ :: ·) (ih (hsame.trans hafter) hfree)
    | ok reply hsame hinner =>
      have hfree' : DraftsFree "" _ := fun name hname => hfree name (hinner _ hname)
      exact congrArg (_ :: ·) (ih (hsame.trans hafter) hfree')

end

end Store.Directory

/-! ## Services -/

namespace Store

variable {rules : Rules} {st : Store} {call : Call}

/-- A call that fails leaves the store as it is. -/
theorem step_error {e : Error} {report : Option Merge.Report}
    (h : (st.step rules call).1 = some ⟨.error e, report⟩) : (st.step rules call).2 = st := by
  have heffect {α : Type} {value : α → Value} {result : Except Error (α × Store)}
      (h : (st.effect value result).1 = some ⟨.error e, report⟩) :
      (st.effect value result).2 = st := by
    cases result with
    | error e => rfl
    | ok r => cases h
  cases call with
  | load path typeName =>
    rw [step] at h ⊢
    cases hresolve : st.resolve rules path typeName with
    | error e => rfl
    | ok r => rfl
  | save | saveChecked | delete | deleteMentioning => exact heffect h
  | list | setCacheEnabled => rfl

end Store

/-- After a call that a service answered with an error, it gives to all later calls the same replies
as if the call had not been made. So does a directory of snapshots after a request that it answered
with an error, whatever lies in it and whatever the system refused, and although the request may
have left a draft. The requests to a directory are answered step by step as by the store. -/
theorem failures_leave_no_trace :
    (∀ {rules : Rules} {m : Store.Memory} {capacity : Nat} {history : List Call} {s : Service},
      (Service.start (.memory m) capacity).after rules history = s →
      ∀ {call : Call} {e : Error} {report : Option Merge.Report},
        (s.step rules call).1 = some ⟨.error e, report⟩ →
        ∀ later, (s.step rules call).2.replies rules later = s.replies rules later) ∧
      (∀ {mark : String} {d : Store.Directory} {refusals : Store.Directory.Refusals}
        {r : Store.Request} {e : Error}, Keyed.Sorted d.entries →
        (Store.Directory.outcome (Store.Directory.perform mark refusals r) d).1 = .error e →
        ∀ later,
          Store.Directory.answers mark
              (Store.Directory.outcome (Store.Directory.perform mark refusals r) d).2 later =
            Store.Directory.answers mark d later) ∧
      ∀ {d : Store.Directory} (requests : List Store.Request), Keyed.Sorted d.entries →
        Store.Directory.DraftsFree "" d →
        Store.Directory.answers "" d (requests.map fun r => ({}, r)) =
          (Store.directory d).responses requests := by
  refine ⟨?_, ?_, ?_⟩
  · intro rules m capacity history s hs call e report herror later
    obtain ⟨-, hover⟩ := Service.run_spec rules history (Service.start_over (.memory m) capacity)
      (Store.keeps_memory m)
    have hst := Store.after_keeps rules history (Store.keeps_memory m)
    rw [hs] at hover
    obtain ⟨hreply, hafter⟩ := Service.step_spec rules call hover hst
    rw [Store.step_error (hreply.symm.trans herror)] at hafter
    rw [(Service.run_spec rules later hafter hst).1, (Service.run_spec rules later hover hst).1]
  · intro mark d refusals r e hsorted herror later
    have htrace := Store.Directory.traceless_perform mark refusals r d e hsorted herror
    exact (Store.Directory.answers_congr mark htrace).symm
  · intro d requests hsorted hfree
    exact Store.Directory.answers_eq_responses (.refl hsorted) hfree

namespace Sample

open Store.Directory

/-- A directory stands in place of the snapshot file of a user. -/
def blocked : Store.Directory := .atPlace "store" (.directory [(fileName alice, .directory)])

theorem blocked_save (mark : String) :
    outcome (perform mark {} (.save (.emptyComplex alice "App"))) blocked =
      (.error (.storage (.renaming (blocked.filePath (draftName mark (fileName alice))))
          (.file .isDirectory)),
        blocked.withFile (draftName mark (fileName alice))
          (Snapshot.text ⟨alice, .emptyComplex alice "App"⟩)) := by
  have hname := isSnapshotName_fileName alice
  have hplace : (Node.emptyComplex alice "App").definedAt = alice := rfl
  have hobstacle : blocked.obstacle? = none := rfl
  have hopened : blocked.opened = blocked := rfl
  have htarget : blocked.entry? (fileName alice) = some .directory := by
    simp [blocked, atPlace, entry?, entries]
  have hdraft : blocked.entry? (draftName mark (fileName alice)) = none := by
    simp [blocked, atPlace, entry?, entries, List.lookup_cons, (draftName_ne hname).1]
  rw [perform, outcome_bind, writeSnapshot, outcome_bind, outcome_create]
  simp [hplace, hobstacle, hopened, outcome_replaceFile _ _ _ _ hname, htarget, hdraft]

/-- The save of that user fails and leaves a draft, but all later answers stay the same. A stale
save in memory has no effect either. -/
theorem blocked_save_leaves_no_trace :
    ((outdated.step rules (.saveChecked alice "App" (app "90") 7)).1 =
          some ⟨.error (.stale alice 7 1), none⟩ ∧
        ∀ later,
          (outdated.step rules (.saveChecked alice "App" (app "90") 7)).2.replies rules later =
            outdated.replies rules later) ∧
      (∃ e left, outcome (perform ".7" {} (.save (.emptyComplex alice "App"))) blocked =
          (.error e, left) ∧
        left.entry? (draftName ".7" (fileName alice)) ≠ none ∧
        ∀ later, answers ".7" left later = answers ".7" blocked later) ∧
      answers "" (.atPlace "store" .absent) [({}, .load alice)] =
        (Store.directory (.atPlace "store" .absent)).responses [.load alice] := by
  obtain ⟨hservice, hdirectory, hstore⟩ := failures_leave_no_trace
  have hstale : (outdated.step rules (.saveChecked alice "App" (app "90") 7)).1 =
      some ⟨.error (.stale alice 7 1), none⟩ := rfl
  refine ⟨⟨hstale, @hservice rules .empty 2 _ _ rfl _ _ _ hstale⟩, ?_, ?_⟩
  · have hsorted : Keyed.Sorted blocked.entries := List.pairwise_singleton _ _
    have hsave := blocked_save ".7"
    refine ⟨_, _, hsave, by simp [entry?_withFile], fun later => ?_⟩
    have hsame := hdirectory hsorted (congrArg Prod.fst hsave) later
    rw [hsave] at hsame
    exact hsame
  · exact hstore [.load alice] List.Pairwise.nil fun name => by simp [atPlace, entry?, entries]

end Sample

end ScopedConfig
