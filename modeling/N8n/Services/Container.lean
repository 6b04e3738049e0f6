import N8n.Foundations.InsertionMap

/-!
# The container of services

`get` returns the instance of a service, or constructs it from the instances of the services that
its constructor has as parameters. Services that are being resolved are on the resolution stack, and
one that is asked for while it is there is a circular dependency.

The depth of the recursion is bounded here by the number of services, and `get` never reaches the
bound. Constructors do not use the container themselves.
-/

namespace N8n

/-- A constructor or a factory. Its calls are numbered, because not all of them need to end the same
way. -/
abbrev Constructor (ν ε : Type) := ℕ → List ν → Except ε ν

structure Metadata (ν ε : Type) where
  instance? : Option ν := none
  factory? : Option (Constructor ν ε) := none

/-- What the container does not decide. -/
structure Services (κ ν ε : Type) where
  /-- The parameters of a constructor, none for those the compiler could not resolve. -/
  paramTypes : κ → List (Option κ)
  /-- `new type(…)`, which makes an object. -/
  construct : κ → Constructor ν ε
  undefined : ν
  truthy : ν → Bool
  truthy_construct : ∀ type call args value, construct type call args = .ok value →
    truthy value = true
  /-- A `TypeError` about an abstract class. -/
  isAbstractError : ε → Bool

/-- What `get` throws. -/
inductive Failure (κ ε : Type)
  | circular (path : List κ)
  | notDecorated (type : κ)
  | abstractClass (type : κ)
  | thrown (error : ε)
  deriving DecidableEq, Repr

/-- A constructor or a factory has returned. -/
structure Construction (κ ν : Type) where
  type : κ
  dependencies : List ν
  value : ν
  deriving DecidableEq, Repr

structure Container (κ ν ε : Type) where
  instances : InsertionMap κ (Metadata ν ε)
  resolutionStack : List κ := []
  /-- The number of constructors and factories called so far. -/
  calls : ℕ := 0
  constructed : List (Construction κ ν) := []
  /-- The errors that they have thrown. -/
  thrown : List (κ × ε) := []

namespace Container

variable {κ ν ε : Type} [DecidableEq κ] (services : Services κ ν ε)

/-- A container in which the services are registered. -/
def ofRegistrations (registrations : InsertionMap κ (Option (Constructor ν ε))) :
    Container κ ν ε where
  instances := registrations.map fun factory? => { factory? := factory? }

/-- The parameters, one after the other, until one fails. -/
def resolve
    (get : κ → Container κ ν ε → Option (Except (Failure κ ε) ν × Container κ ν ε)) :
    List (Option κ) → Container κ ν ε →
      Option (Except (Failure κ ε) (List ν) × Container κ ν ε)
  | [], container => some (.ok [], container)
  | none :: paramTypes, container =>
    (resolve get paramTypes container).map fun (dependencies, container) =>
      (dependencies.map (services.undefined :: ·), container)
  | some paramType :: paramTypes, container =>
    match get paramType container with
    | none => none
    | some (.error failure, container) => some (.error failure, container)
    | some (.ok value, container) =>
      (resolve get paramTypes container).map fun (dependencies, container) =>
        (dependencies.map (value :: ·), container)

/-- `catch (error)`. -/
def rethrow (type : κ) : Failure κ ε → Failure κ ε
  | .thrown error => if services.isAbstractError error then .abstractClass type else .thrown error
  | failure => failure

/-- Call the factory or the constructor, and store the instance. -/
def build (type : κ) (metadata : Metadata ν ε) (dependencies : List ν)
    (container : Container κ ν ε) : Except (Failure κ ε) ν × Container κ ν ε :=
  let called := { container with calls := container.calls + 1 }
  match metadata.factory?.getD (services.construct type) container.calls dependencies with
  | .error error =>
    (.error (rethrow services type (.thrown error)),
      { called with thrown := container.thrown ++ [(type, error)] })
  | .ok value =>
    (.ok value, { called with
      instances := container.instances.set type { metadata with instance? := some value }
      constructed := container.constructed ++ [⟨type, dependencies, value⟩] })

/-- What remains to be done when the parameters have been resolved, or one of them has failed. -/
def finish (type : κ) (metadata : Metadata ν ε) (container : Container κ ν ε) :
    Except (Failure κ ε) (List ν) → Except (Failure κ ε) ν × Container κ ν ε
  | .error failure => (.error (rethrow services type failure), container)
  | .ok dependencies => build services type metadata dependencies container

/-- `finally`. -/
def leave (container : Container κ ν ε) : Container κ ν ε :=
  { container with resolutionStack := container.resolutionStack.dropLast }

/-- `get(type)`, with a bound for the depth of the recursion. -/
def getWithin :
    ℕ → κ → Container κ ν ε → Option (Except (Failure κ ε) ν × Container κ ν ε)
  | 0, _, _ => none
  | depth + 1, type, container =>
    if type ∈ container.resolutionStack then
      some (.error (.circular (container.resolutionStack ++ [type])), container)
    else
      match container.instances.get? type with
      | none =>
        -- a parameter that is not decorated is undefined
        if container.resolutionStack.length > 0 then some (.ok services.undefined, container)
        else some (.error (.notDecorated type), container)
      | some metadata =>
        match metadata.instance?.filter services.truthy with
        | some value => some (.ok value, container)
        | none =>
          let resolving := { container with
            resolutionStack := container.resolutionStack ++ [type] }
          (resolve services (getWithin depth) (services.paramTypes type) resolving).map
            fun (dependencies, container) =>
              let (result, container) := finish services type metadata container dependencies
              (result, leave container)

def get (type : κ) (container : Container κ ν ε) :
    Option (Except (Failure κ ε) ν × Container κ ν ε) :=
  getWithin services (container.instances.size + 1) type container

end Container

end N8n
