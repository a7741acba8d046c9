import FilterQuery.Selector

/-!
# What a step of a walk can do

A step reads the property that the next segment stands for and takes one of ten turns.
The turns are listed once here, with what decides each of them; whatever holds of walks
is then shown turn by turn, and carried over whole runs by `run_holds`.
-/

namespace FilterQuery.Selector

variable {metadata : Metadata} {mapper : Mapper} {selector : String} {walk : Walk}

/-- The path of a segment within the context that a walk has reached. -/
def Walk.pathTo (walk : Walk) (segment : String) : List String :=
  walk.embedded ++ [segment]

/-- Makes the join that the next segment of a walk needs. -/
def Walk.joinAt (walk : Walk) (segment : String) (target : JoinTarget) : JoinId × Query :=
  walk.query.ensureJoin walk.context (Text.dotted (walk.pathTo segment)) target

/-- The turns that a step can take. -/
inductive Move (metadata : Metadata) (mapper : Mapper) (selector : String) (walk : Walk) :
    Progress → Prop
  | exhausted (noSegments : expand mapper walk.owner walk.pending = []) :
      Move metadata mapper selector walk
        (.stopped (.error (.unknownProperty selector (metadata.displayName walk.owner))) walk.query)
  | unknown {segment : String} {rest : List String}
      (segments : expand mapper walk.owner walk.pending = segment :: rest)
      (property : metadata.property walk.owner segment = none) :
      Move metadata mapper selector walk
        (.stopped (.error (.unknownProperty segment (metadata.displayName walk.owner))) walk.query)
  | value {segment : String} {rest : List String} {type : AttributeType}
      (segments : expand mapper walk.owner walk.pending = segment :: rest)
      (property : metadata.property walk.owner segment = some (.attribute type)) :
      Move metadata mapper selector walk
        (.stopped (valueOutcome ⟨walk.context, walk.pathTo segment⟩ segment type rest) walk.query)
  | composite {segment : String} {inner : EntityId}
      (segments : expand mapper walk.owner walk.pending = [segment])
      (property : metadata.property walk.owner segment = some (.embedded inner)) :
      Move metadata mapper selector walk
        (.stopped (.ok
          { path := ⟨walk.context, walk.pathTo segment⟩
            name := segment
            type := .object (metadata.displayName inner) false }) walk.query)
  | enter {segment : String} {rest : List String} {inner : EntityId}
      (segments : expand mapper walk.owner walk.pending = segment :: rest) (more : rest ≠ [])
      (property : metadata.property walk.owner segment = some (.embedded inner)) :
      Move metadata mapper selector walk
        (.walking { walk with owner := inner, embedded := walk.pathTo segment, pending := rest })
  | reference {segment : String} {target : EntityId}
      (segments : expand mapper walk.owner walk.pending = [segment])
      (property : metadata.property walk.owner segment = some (.association target .single)) :
      Move metadata mapper selector walk
        (.stopped (entityOutcome metadata ⟨walk.context, walk.pathTo segment⟩ segment target)
          walk.query)
  | whole {segment : String} {target : EntityId}
      (segments : expand mapper walk.owner walk.pending = [segment])
      (property : metadata.property walk.owner segment = some (.association target .collection)) :
      Move metadata mapper selector walk
        (.stopped
          (entityOutcome metadata ⟨.join (walk.joinAt segment (.entity target)).1, []⟩ segment
            target)
          (walk.joinAt segment (.entity target)).2)
  | follow {segment : String} {rest : List String} {target : EntityId} {cardinality : Cardinality}
      (segments : expand mapper walk.owner walk.pending = segment :: rest) (more : rest ≠ [])
      (property : metadata.property walk.owner segment = some (.association target cardinality)) :
      Move metadata mapper selector walk
        (.walking
          { context := .join (walk.joinAt segment (.entity target)).1
            owner := target
            embedded := []
            pending := rest
            query := (walk.joinAt segment (.entity target)).2 })
  | behind {segment next : String} {rest : List String} {type : AttributeType}
      (segments : expand mapper walk.owner walk.pending = segment :: next :: rest)
      (property : metadata.property walk.owner segment = some (.elements type)) :
      Move metadata mapper selector walk
        (.stopped (.error (.unknownProperty next type.name)) walk.query)
  | element {segment : String} {type : AttributeType}
      (segments : expand mapper walk.owner walk.pending = [segment])
      (property : metadata.property walk.owner segment = some (.elements type)) :
      Move metadata mapper selector walk
        (.stopped (.ok
          { path := ⟨.join (walk.joinAt segment (.elements type)).1, []⟩
            name := segment
            type }) (walk.joinAt segment (.elements type)).2)

/-- Each step takes one of the turns. -/
theorem move_step (metadata : Metadata) (mapper : Mapper) (selector : String) (walk : Walk) :
    Move metadata mapper selector walk (step metadata mapper selector walk) := by
  unfold step
  split
  · rename_i segments
    exact .exhausted segments
  · rename_i segment rest segments
    rcases property : metadata.property walk.owner segment with
      _ | ⟨type⟩ | ⟨inner⟩ | ⟨target, cardinality⟩ | ⟨type⟩
    · exact .unknown segments property
    · exact .value segments property
    · cases rest with
      | nil => exact .composite segments property
      | cons next rest => exact .enter segments (List.cons_ne_nil next rest) property
    · cases rest with
      | nil =>
          cases cardinality with
          | single => exact .reference segments property
          | collection => exact .whole segments property
      | cons next rest => exact .follow segments (List.cons_ne_nil next rest) property
    · cases rest with
      | nil => exact .element segments property
      | cons next rest => exact .behind segments property

/-! ## Runs -/

/-- What holds of how far a walk has come. -/
def Progress.Holds (walking : Walk → Prop)
    (stopped : Except CompileError Attribute → Query → Prop) : Progress → Prop
  | .walking walk => walking walk
  | .stopped outcome query => stopped outcome query

theorem Progress.Holds.imp {walking walking' : Walk → Prop}
    {stopped stopped' : Except CompileError Attribute → Query → Prop} {progress : Progress}
    (holds : progress.Holds walking stopped) (onWalking : ∀ walk, walking walk → walking' walk)
    (onStopped : ∀ outcome query, stopped outcome query → stopped' outcome query) :
    progress.Holds walking' stopped' := by
  cases progress with
  | walking walk => exact onWalking walk holds
  | stopped outcome query => exact onStopped outcome query holds

theorem Progress.Holds.and {walking walking' : Walk → Prop}
    {stopped stopped' : Except CompileError Attribute → Query → Prop} {progress : Progress}
    (holds : progress.Holds walking stopped) (also : progress.Holds walking' stopped') :
    progress.Holds (fun walk => walking walk ∧ walking' walk)
      (fun outcome query => stopped outcome query ∧ stopped' outcome query) := by
  cases progress <;> exact ⟨holds, also⟩

/-- What each step keeps, a run keeps. -/
theorem run_holds {walking : Walk → Prop} {stopped : Except CompileError Attribute → Query → Prop}
    (keeps : ∀ walk progress, walking walk → Move metadata mapper selector walk progress →
      progress.Holds walking stopped)
    (steps : Nat) (start : walking walk) :
    (run metadata mapper selector steps walk).Holds walking stopped := by
  induction steps generalizing walk with
  | zero => exact start
  | succ steps ih =>
      have kept := keeps walk _ start (move_step metadata mapper selector walk)
      rw [run]
      split
      · rename_i next hnext
        rw [hnext] at kept
        exact ih kept
      · rename_i outcome query hstopped
        rw [hstopped] at kept
        exact kept

end FilterQuery.Selector
