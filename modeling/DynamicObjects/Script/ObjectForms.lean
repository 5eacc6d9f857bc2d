import DynamicObjects.Script.Operands

/-!
# Forms on registries, classes and instances

Each form calls the operation of its name. An answer that is not there is a missing
value, and so is the answer of a form that only changes something.
-/

namespace DynamicObjects.Script

/-- Runs a form on a registry. -/
def actOnRegistry (form : RegistryForm) (operands : List Item) : Eval Item := do
  match form, operands with
  | .new settings, [] => return .handle (.registry (← makeRegistry settings))
  | .register, [r, c] =>
    registerClass (← r.toRegistry) (← c.toClass)
    return Item.missing
  | .get, [r, name] =>
    let r ← r.toRegistry
    let name ← name.toString
    return Item.ofOption Item.ofClass
      (← Eval.reads fun w => Entries.find? name (w.registryState r).classes)
  | .classes, [r] =>
    let r ← r.toRegistry
    let classes ← Eval.reads fun w => Entries.values (w.registryState r).classes
    return Item.ofStrings (classes.map ClassRef.displayName)
  | .childrenOf, [r, c] =>
    let r ← r.toRegistry
    let c ← c.toClass
    return Item.ofStrings ((← Eval.reads fun w => w.childrenOf r c).map ClassRef.displayName)
  | .length, [r] =>
    let r ← r.toRegistry
    return Item.ofNat (← Eval.reads fun w => (w.registryState r).classes.length)
  | .isEmpty, [r] =>
    let r ← r.toRegistry
    return Item.ofBool (← Eval.reads fun w => (w.registryState r).classes.isEmpty)
  | .settings, [r] =>
    let r ← r.toRegistry
    return Item.ofString (← Eval.reads fun w => (w.registryState r).settings).toJson.compact
  | _, _ => Eval.illFormed

/-- One part of a table of a class: names for members that run, a map for values. -/
def listTable (state : ClassState) (table : Table) (own inherited : Bool) : Item :=
  match table with
  | .methods => Item.ofStrings (Entries.keys (state.methods.list own inherited))
  | .operations => Item.ofStrings (Entries.keys (state.operations.list own inherited))
  | .shared => .value (.map (state.shared.list own inherited))
  | .properties => .value (.map (state.properties.list own inherited))

/-- Runs a form on a class. -/
def actOnClass [Host] (form : ClassForm) (operands : List Item) : Eval Item := do
  match form, operands with
  | .id, [c] => return Item.ofNat (← c.toClass).id
  | .name, [c] => return Item.ofOption Item.ofString (← c.toClass).name
  | .displayName, [c] => return Item.ofString (← c.toClass).displayName
  | .parent, [c] =>
    let c ← c.toClass
    return Item.ofOption Item.ofClass (← Eval.reads fun w => (w.classState c).parent)
  | .isClass, [x] =>
    match (← x.toValue) with
    | .cls _ => return Item.ofBool true
    | .inst _ => return Item.ofBool false
    | _ => Eval.illFormed
  | .initializer, [c] =>
    let c ← c.toClass
    return Item.ofOption (fun routine => .handle (.method routine))
      (← Eval.reads fun w => (w.classState c).initializer)
  | .isSubclassOf, [c, ancestor] =>
    let c ← c.toClass
    let ancestor ← ancestor.toClass
    return Item.ofBool (← Eval.reads fun w => w.isSubclassOf c ancestor)
  | .hasInstance, [c, v] =>
    let c ← c.toClass
    let v ← v.toValue
    return Item.ofBool (← Eval.reads fun w => w.hasInstance c v)
  | .respondsTo, [c, name] =>
    let c ← c.toClass
    let name ← name.toString
    return Item.ofBool (← Eval.reads fun w => w.respondsTo c name)
  | .method, [c, name] =>
    let c ← c.toClass
    let name ← name.toString
    return Item.ofOption (fun routine => .handle (.method routine))
      (← Eval.reads fun w => (w.classState c).methods.get? name)
  | .operation, [c, name] =>
    let c ← c.toClass
    let name ← name.toString
    return Item.ofOption (fun routine => .handle (.operation routine))
      (← Eval.reads fun w => (w.classState c).operations.get? name)
  | .member, [c, name] =>
    let c ← c.toClass
    let name ← name.toString
    return Item.ofOption (fun member => .handle (.member member))
      (← Eval.reads fun w => w.member? c name)
  | .methodByFullname, [c, key] =>
    let c ← c.toClass
    let key ← key.toString
    return Item.ofOption (fun routine => .handle (.method routine))
      (← Eval.reads fun w => (w.classState c).methods.getFullname? key)
  | .operationByFullname, [c, key] =>
    let c ← c.toClass
    let key ← key.toString
    return Item.ofOption (fun routine => .handle (.operation routine))
      (← Eval.reads fun w => (w.classState c).operations.getFullname? key)
  | .list table, [c, own, inherited] =>
    let c ← c.toClass
    return listTable (← Eval.reads fun w => w.classState c) table own.isTruthy inherited.isTruthy
  | .shared, [c, name] =>
    let c ← c.toClass
    return .value (← c.shared (← name.toString))
  | .setShared, [c, name, v] =>
    let c ← c.toClass
    c.setShared (← name.toString) (← v.toValue)
    return Item.missing
  | .getOperation, [c, name] =>
    let c ← c.toClass
    return .handle (.boundOperation (← c.getOperation (← name.toString)))
  | .callOperation, c :: name :: args =>
    let c ← c.toClass
    return .value (← c.callOperation (← name.toString) (← Item.toValues args))
  | .construct, c :: args =>
    let c ← c.toClass
    return .value (.inst (← c.construct (← Item.toValues args)))
  | .bare, c :: _ =>
    let c ← c.toClass
    return .value (.inst (← c.constructBare))
  | .methodCall, .handle (.method routine) :: this :: args =>
    return .value (← Host.run routine.body ⟨.inst (← this.toInstance), ← Item.toValues args⟩)
  | .operationCall, .handle (.operation routine) :: c :: args =>
    return .value (← Host.run routine.body ⟨.cls (← c.toClass), ← Item.toValues args⟩)
  | .memberInvoke, .handle (.member member) :: this :: c :: args =>
    return .value (← member.invoke (← this.toInstance) (← c.toClass) (← Item.toValues args))
  | _, _ => Eval.illFormed

/-- Runs a form on an instance or on a handle. -/
def actOnInstance [Host] (form : InstanceForm) (operands : List Item) : Eval Item := do
  match form, operands with
  | .get, [i, name] =>
    let i ← i.toInstance
    let name ← name.toString
    return .value (← Eval.reads fun w => w.property i name)
  | .set, [i, name, v] =>
    let i ← i.toInstance
    i.set (← name.toString) (← v.toValue)
    return Item.missing
  | .propertyNames, [i] =>
    let i ← i.toInstance
    return Item.ofStrings (← Eval.reads fun w => Entries.keys (w.properties i))
  | .classOf, [v] => return Item.ofOption Item.ofClass (← v.toValue).classOf?
  | .isInstance, [v] =>
    let v ← v.toValue
    return Item.ofBool (← Eval.reads fun w => w.isInstance v none)
  | .isInstance, [v, c] =>
    let v ← v.toValue
    let c ← c.toClass
    return Item.ofBool (← Eval.reads fun w => w.isInstance v (some c))
  | .instanceOf, [i, c] =>
    let i ← i.toInstance
    let c ← c.toClass
    return Item.ofBool (← Eval.reads fun w => w.isSubclassOf i.cls c)
  | .getMethod, [i, name] =>
    let i ← i.toInstance
    return .handle (.boundMethod (← i.getMethod (← name.toString)))
  | .getCallback, [i, name] =>
    let i ← i.toInstance
    return .handle (.boundMethod (← i.getCallback (← name.toString)))
  | .invoke, i :: name :: args =>
    let i ← i.toInstance
    return .value (← i.invoke (← name.toString) (← Item.toValues args))
  | .getSuper, [i, c] =>
    let i ← i.toInstance
    return .handle (.proxy (← i.getSuper (← c.toClass)))
  | .boundCall, .handle (.boundMethod b) :: args => return .value (← b.call (← Item.toValues args))
  | .boundCall, .handle (.boundOperation b) :: args =>
    return .value (← b.call (← Item.toValues args))
  | .asFunction, [.handle (.boundMethod b)] => return .value (.function b.toFunction)
  | .proxyCall, p :: name :: args =>
    let p ← p.toProxy
    return .value (← p.call (← name.toString) (← Item.toValues args))
  | .proxyInit, p :: args =>
    let p ← p.toProxy
    return .value (← p.runInitializer (← Item.toValues args))
  | .proxySuper, [p] =>
    let p ← p.toProxy
    return .handle (.proxy (← p.getSuper))
  | .proxyClass, [p] => return Item.ofClass (← p.toProxy).cls
  | .proxyInstance, [p] =>
    let p ← p.toProxy
    return .value (.inst (← p.instance?))
  | _, _ => Eval.illFormed

end DynamicObjects.Script
