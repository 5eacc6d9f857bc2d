import DynamicObjects.Objects.Classes

/-!
# Instances and their handles

An instance hands out bound methods by name and proxies by ancestor, and hands out the
same one again when asked again. A bound method finds its member when it is called; a
proxy finds it among the members of its ancestor. Neither keeps the instance alive.
-/

namespace DynamicObjects

open Script

/-- Runs a member. A method acts on the instance, an operation on the class. -/
def Member.invoke [Host] (member : Member) (this : InstanceRef) (cls : ClassRef)
    (args : List Value) : Eval Value :=
  match member with
  | .method routine => Host.run routine.body ⟨.inst this, args⟩
  | .operation routine => Host.run routine.body ⟨.cls cls, args⟩

/-- Calls a member on an instance that may be gone. The member is found now, and the
instance is held while it runs. -/
def callBound [Host] (receiver : InstanceRef) (name : String) (appendsReceiver : Bool)
    (args : List Value) : Eval Value := do
  if ← Eval.isAlive (.inst receiver) then
    match (← Eval.reads fun w => w.member? receiver.cls name) with
    | some member =>
      Eval.holding (.values [.inst receiver]) <|
        member.invoke receiver receiver.cls
          (if appendsReceiver then args ++ [.inst receiver] else args)
    | none => Eval.fail (receiver.cls.unknownMember name)
  else Eval.fail (.detachedReceiver name)

def BoundMethod.call [Host] (b : BoundMethod) (args : List Value) : Eval Value :=
  callBound b.receiver b.name b.appendsReceiver args

namespace InstanceRef

/-- Changes the state of an instance. -/
def update (i : InstanceRef) (f : InstanceState → InstanceState) : Eval Unit :=
  Eval.modify fun w => w.setInstance i (f (w.instanceState i))

/-- Sets a property. -/
def set (i : InstanceRef) (name : String) (value : Value) : Eval Unit :=
  i.update fun state => { state with properties := Entries.insert name value state.properties }

/-- The key under which a bound method is kept. Callbacks have a suffix. -/
def bindingKey (name : String) (appendsReceiver : Bool) : String :=
  if appendsReceiver then name ++ "_k" else name

/-- The bound method of a name, the one handed out before if there is one. -/
def bind (i : InstanceRef) (name : String) (appendsReceiver : Bool) : Eval BoundMethod := do
  let key := bindingKey name appendsReceiver
  match (← Eval.reads fun w => Entries.find? key (w.instanceState i).boundMethods) with
  | some bound => return bound
  | none =>
    if ← Eval.reads fun w => w.respondsTo i.cls name then
      let bound : BoundMethod := ⟨← Eval.fresh, i, name, appendsReceiver⟩
      i.update fun state =>
        { state with boundMethods := Entries.insert key bound state.boundMethods }
      return bound
    else Eval.fail (i.cls.unknownMember name)

def getMethod (i : InstanceRef) (name : String) : Eval BoundMethod := i.bind name false

/-- The bound method of a name, the instance itself being its last argument. -/
def getCallback (i : InstanceRef) (name : String) : Eval BoundMethod := i.bind name true

/-- Calls the member of a name. -/
def invoke [Host] (i : InstanceRef) (name : String) (args : List Value) : Eval Value :=
  Eval.holding (.values [.inst i]) do
    let bound ← i.getMethod name
    bound.call args

/-- The proxy for an ancestor, the one handed out before if there is one. -/
def getSuper (i : InstanceRef) (ancestor : ClassRef) : Eval SuperProxy := do
  if ← Eval.reads fun w => w.isSubclassOf i.cls ancestor then
    match (← Eval.reads fun w => Entries.find? ancestor.index (w.instanceState i).proxies) with
    | some proxy => return proxy
    | none =>
      let proxy : SuperProxy := ⟨← Eval.fresh, i, ancestor⟩
      i.update fun state =>
        { state with proxies := Entries.insert ancestor.index proxy state.proxies }
      return proxy
  else Eval.fail (.notAnAncestor i.cls.displayName ancestor.displayName)

end InstanceRef

/-! ## Proxies -/

namespace SuperProxy

/-- The instance behind a proxy, if it is still alive. -/
def instance? (p : SuperProxy) : Eval InstanceRef := do
  if ← Eval.isAlive (.inst p.receiver) then return p.receiver
  else Eval.fail (.detachedReceiver ("super(" ++ p.cls.displayName ++ ")"))

/-- Runs the ancestor's member of a name. That the ancestor has one is checked before
the instance is looked for. -/
def call [Host] (p : SuperProxy) (name : String) (args : List Value) : Eval Value := do
  match (← Eval.reads fun w => w.member? p.cls name) with
  | some member =>
    let this ← p.instance?
    Eval.holding (.values [.inst this, .cls p.cls]) (member.invoke this p.cls args)
  | none => Eval.fail (p.cls.unknownMember name)

/-- Runs the ancestor's initializer on the instance. -/
def runInitializer [Host] (p : SuperProxy) (args : List Value) : Eval Value := do
  let this ← p.instance?
  match (← Eval.reads fun w => (w.classState p.cls).initializer) with
  | some routine => Host.run routine.body ⟨.inst this, args⟩
  | none => return .undefined

/-- The proxy for the ancestor's parent. That there is a parent is checked before the
instance is looked for. -/
def getSuper (p : SuperProxy) : Eval SuperProxy := do
  match (← Eval.reads fun w => (w.classState p.cls).parent) with
  | some parent =>
    let this ← p.instance?
    this.getSuper parent
  | none => Eval.fail (.noParent p.cls.displayName)

end SuperProxy

end DynamicObjects
