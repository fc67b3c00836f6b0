import ModelHub.Proofs.Push.Confinement
import ModelHub.Proofs.Push.Handlers
import ModelHub.Proofs.Reconcile.Regime
import ModelHub.Proofs.Reconcile.Settlement

namespace ModelHub

/-- What a push needs to have a say in a category. -/
def PushEvent.Opens (event : PushEvent) (store : Store) (config : SyncConfig) :
    TagCategory → Prop
  | .library => ∃ identity scope action path, event.identity = .ok identity ∧
      identity.scope = some scope ∧ (action, path) ∈ event.handled ∧
      (action = .removed ∨ action = .added) ∧ (LibraryTag.ofFile? scope path).isSome
  | .declared => ∃ action, (action, readmeFile) ∈ event.handled
  | .runtimeFramework | .resource => ∃ identity place action, event.identity = .ok identity ∧
      identity.repoType = some .model ∧
      store.place? .model identity.owner identity.name = some place ∧
      event.reference = place.expectedReference config ∧
      (action, modelConfigFile) ∈ event.handled

theorem Tagging.isSome_of_tagOf {scope : TagScope} {path : String}
    (tagged : (tagOf scope path).isSome) : (LibraryTag.ofFile? scope path).isSome := by
  unfold tagOf at tagged
  split at tagged
  · cases tagged
  · exact tagged

namespace Regime

open Work (keeps_ask keeps_askStore keeps_bind keeps_fetch keeps_mk_bind keeps_pure)

variable {regime : Regime} {vacant : Set (Int × Int)} {options : Push.Options}
  {event : PushEvent} {identity : RepoIdentity}

theorem keeps_setUpdateTime :
    Work.Keeps (regime.Holds vacant) (Push.setUpdateTime event) fun _ => True := by
  refine keeps_mk_bind fun identity _ => ?_
  split
  · exact keeps_pure trivial
  · refine keeps_bind keeps_findRepository fun repository _ => ?_
    refine keeps_bind (keeps_ask fun _ _ _ => id) fun now _ => ?_
    split
    · refine keeps_mk_bind fun instant _ => ?_
      refine keeps_bind (keeps_askStore fun _ holds => holds.writeUpdatedAt _) fun _ _ => ?_
      exact keeps_bind (keeps_askStore fun _ holds => holds.writeMirrorTime _) fun _ _ =>
        keeps_pure trivial
    · exact keeps_askStore fun _ holds => holds.writeUpdatedAt _

theorem keeps_applyReadme {reference : String} {action : FileAction}
    (permitted : regime.permits .declared) :
    Work.Keeps (regime.Holds vacant) (Push.applyReadme options identity reference action)
      fun _ => True := by
  unfold Push.applyReadme
  split
  · exact keeps_pure trivial
  · split
    · exact keeps_bind (keeps_clearDeclared permitted) fun _ _ => keeps_pure trivial
    · refine keeps_bind keeps_fetch fun content _ => ?_
      exact keeps_bind (keeps_applyDeclared permitted) fun _ _ => keeps_pure trivial

theorem keeps_updateLibrary {action : FileAction} {path : String}
    (permitted : ∀ scope, TagScope.ofToken? identity.typeToken = some scope →
      action = .removed ∨ action = .added → (LibraryTag.ofFile? scope path).isSome →
      regime.permits .library) :
    Work.Keeps (regime.Holds vacant) (Push.updateLibrary identity path action) fun _ => True := by
  cases action with
  | modified => exact keeps_pure trivial
  | removed =>
    show Work.Keeps _ (Tagging.updateLibrary _ _ _ path "") _
    unfold Tagging.updateLibrary
    split
    · exact keeps_pure trivial
    · next scope known =>
      refine keeps_switchLibrary fun tagged => permitted scope known (Or.inl rfl) ?_
      exact tagged.elim Tagging.isSome_of_tagOf fun ofNothing => absurd ofNothing nofun
  | added =>
    show Work.Keeps _ (Tagging.updateLibrary _ _ _ "" path) _
    unfold Tagging.updateLibrary
    split
    · exact keeps_pure trivial
    · next scope known =>
      refine keeps_switchLibrary fun tagged => permitted scope known (Or.inr rfl) ?_
      exact tagged.elim (fun ofNothing => absurd ofNothing nofun) Tagging.isSome_of_tagOf

theorem handlers (options : Push.Options) (parsed : event.identity = .ok identity)
    (permitted : ∀ category, event.Opens regime.start options.config category →
      regime.permits category) :
    Push.Handlers (regime.Holds ∅) options event identity where
  config action isModel handled := by
    refine keeps_reconcile fun place found expected => ?_
    have isOpen : event.Opens regime.start options.config .runtimeFramework :=
      ⟨identity, place, action, parsed, isModel, found, expected, handled⟩
    exact ⟨permitted .runtimeFramework isOpen, permitted .resource isOpen⟩
  readme action handled := keeps_applyReadme (permitted .declared ⟨action, handled⟩)
  library action path handled := by
    refine keeps_updateLibrary fun scope known switches tagged => ?_
    have inScope := (RepoIdentity.scope_of_parse parsed).trans known
    exact permitted .library ⟨identity, scope, action, path, parsed, inScope, handled, switches,
      tagged⟩

theorem keeps_push (options : Push.Options)
    (permitted : ∀ category, event.Opens regime.start options.config category →
      regime.permits category) :
    Program.Keeps (regime.Holds ∅) (Push.handle options event) fun _ => True :=
  Push.keeps_handle keeps_setUpdateTime fun _ parsed => handlers options parsed permitted

/-- A regime that permits what a push opens holds after every run of that push. -/
theorem holds_of_push {surroundings : Surroundings} {result : PushResult} {dialogue : Dialogue}
    (lawful : regime.start.Lawful)
    (permitted : ∀ category, event.Opens regime.start options.config category →
      regime.permits category)
    (ran : surroundings.run (Push.handle options event) regime.start = (result, dialogue)) :
    regime.Holds ∅ dialogue.store := by
  have ended := surroundings.run_of_leads (keeps_push options permitted _ (holds_start lawful))
  rw [ran] at ended
  exact ended.1

end Regime

namespace Push

variable {surroundings : Surroundings} {options : Options} {event : PushEvent} {store : Store}
  {result : PushResult} {dialogue : Dialogue}

/-- Whatever fails and whenever it is cancelled, a push changes the links of a category only if it
opens that category: library tags by a removed or added file that has one, declared tags by a
README, framework and resource tags by the configuration of a model on its default branch.
Associations go with framework tags. -/
theorem push_changes_what_it_opens (lawful : store.Lawful)
    (ran : surroundings.run (handle options event) store = (result, dialogue)) :
    (∀ category, dialogue.store.linksOf category ≠ store.linksOf category →
      event.Opens store options.config category) ∧
    (dialogue.store.associations ≠ store.associations →
      event.Opens store options.config .runtimeFramework) := by
  let regime : Regime := { start := store, permits := event.Opens store options.config }
  have holds : regime.Holds ∅ dialogue.store :=
    Regime.holds_of_push lawful (fun _ => id) ran
  constructor
  · intro category changed
    by_contra closed
    exact changed (holds.links category closed)
  · intro changed
    by_contra closed
    exact changed (holds.associations closed)

def bertRun : PushResult × Dialogue :=
  (Surroundings.calm bertFiles).run (handle .plain bertPush) Store.bert

theorem bertRun_lawful : bertRun.2.store.Lawful := by
  have pushed : (Regime.free Store.bert).Holds ∅ bertRun.2.store :=
    Regime.holds_of_push Store.bert_reachable.lawful (fun _ _ => trivial) (Prod.eta bertRun).symm
  exact pushed.lawful

def retiredBert : Store := (bertRun.2.store.removeFramework 7).2

def sidePush : PushEvent := { bertPush with reference := "refs/heads/draft" }

def retiredMain : PushResult × Dialogue :=
  (Surroundings.calm bertFiles).run (handle .plain bertPush) retiredBert

def retiredSide : PushResult × Dialogue :=
  (Surroundings.calm bertFiles).run (handle .plain sidePush) retiredBert

theorem side_branch_keeps_associations :
    retiredBert.Lawful ∧ bertPush.Opens retiredBert {} .runtimeFramework ∧
      (.modified, modelConfigFile) ∈ sidePush.handled ∧
      retiredSide.2.store.associations = retiredBert.associations := by
  have lawful : retiredBert.Lawful := bertRun_lawful.removeFramework 7
  have cleared : retiredMain.2.store.associations ≠ retiredBert.associations := by decide +kernel
  have opened := (push_changes_what_it_opens lawful (Prod.eta retiredMain).symm).2 cleared
  refine ⟨lawful, opened, by decide +kernel, ?_⟩
  by_contra changed
  obtain ⟨identity, place, action, parsed, -, found, expected, -⟩ :=
    (push_changes_what_it_opens lawful (Prod.eta retiredSide).symm).2 changed
  have isBert : sidePush.identity = .ok Reconcile.bertIdentity := by decide +kernel
  obtain rfl := Except.ok.inj (isBert.symm.trans parsed)
  have isHere : retiredBert.place? .model Reconcile.bertIdentity.owner
      Reconcile.bertIdentity.name = some bertPlace := by decide +kernel
  obtain rfl := Option.some.inj (isHere.symm.trans found)
  have elsewhere : sidePush.reference ≠ bertPlace.expectedReference {} := by decide +kernel
  exact elsewhere expected

end Push

end ModelHub
