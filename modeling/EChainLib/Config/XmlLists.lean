import EChainLib.Support.Owned
import EChainLib.Support.Run
import EChainLib.Config.Ini

/-! The lists of children of `XMLNode`, through which a node owns others. A pointer is
the number of a node, and `none` is undefined behaviour. -/

namespace EChainLib.Config.Xml

open EChainLib.Keys (Bytes text)
open EChainLib.Owned (Heap Rooted destroy)

/-- An `XMLNode` in memory, with pointers to its children. -/
structure XMLNodeObject where
  m_Note : Bytes
  m_NodeName : Bytes
  m_Content : Bytes
  m_NodeType : Int
  m_Depth : Int
  m_Nodes : List Nat

/-- `XMLNode(string, string, string, Int32)`. -/
def newNode (v_Note v_Name v_Content : Bytes) (v_Depth : Int) : XMLNodeObject where
  m_Note := v_Note
  m_NodeName := v_Name
  m_Content := v_Content
  m_NodeType := if v_Content = [] then 1 else 0
  m_Depth := v_Depth
  m_Nodes := []

/-- `delete`, by way of `~XMLNode`. There are not more nodes on the way down than created. -/
def delete (heap : Heap XMLNodeObject) (node : Nat) : Option (Heap XMLNodeObject) :=
  destroy XMLNodeObject.m_Nodes heap.created heap node

def addChildNode (this : Nat) (v_Note v_Name v_Content : Bytes) (heap : Heap XMLNodeObject) :
    Option (Heap XMLNodeObject × Nat) := do
  let node ← heap.node this
  let pNode := heap.created
  let heap := heap.create (newNode v_Note v_Name v_Content (node.m_Depth + 1))
  return (heap.set this { node with m_Nodes := node.m_Nodes ++ [pNode] }, pNode)

/-- `delete *it` and `m_Nodes.erase(it)` at the place found, and what is returned. -/
def removeAt (this : Nat) (heap : Heap XMLNodeObject) : Option Nat → Option (Heap XMLNodeObject × Bool)
  | none => return (heap, false)
  | some it => do
      let heap ← delete heap (← (← heap.node this).m_Nodes[it]?)
      let node ← heap.node this
      return (heap.set this { node with m_Nodes := node.m_Nodes.eraseIdx it }, true)

/-- The first child with the name. -/
def findName (heap : Heap XMLNodeObject) (v_Name : Bytes) : List Nat → Nat → Option (Option Nat)
  | [], _ => return none
  | child :: rest, it => do
      if (← heap.node child).m_NodeName = v_Name then return some it
      else findName heap v_Name rest (it + 1)

def removeChildNodeByName (this : Nat) (v_Name : Bytes) (heap : Heap XMLNodeObject) :
    Option (Heap XMLNodeObject × Bool) := do
  removeAt this heap (← findName heap v_Name (← heap.node this).m_Nodes 0)

def removeChildNodeByIndex (this : Nat) (index : Int32) (heap : Heap XMLNodeObject) :
    Option (Heap XMLNodeObject × Bool) := do
  let places := List.range (← heap.node this).m_Nodes.length
  removeAt this heap (places.find? fun i => (i : Int) = index.toInt)

def removeChildNodeByPointer (this v_Node : Nat) (heap : Heap XMLNodeObject) :
    Option (Heap XMLNodeObject × Bool) := do
  removeAt this heap ((← heap.node this).m_Nodes.findIdx? fun child => child = v_Node)

/-- The children are deleted, and stay in the list. -/
def removeAllChildNode (this : Nat) (heap : Heap XMLNodeObject) : Option (Heap XMLNodeObject × Bool) := do
  return (← (← heap.node this).m_Nodes.foldlM (destroy XMLNodeObject.m_Nodes heap.created) heap, true)

inductive Call where
  | addChildNode (this : Nat) (v_Note v_Name v_Content : Bytes)
  | removeChildNodeByName (this : Nat) (v_Name : Bytes)
  | removeChildNodeByIndex (this : Nat) (index : Int32)
  | removeChildNodeByPointer (this v_Node : Nat)
  | removeAllChildNode (this : Nat)

namespace Call

def this : Call → Nat
  | addChildNode this _ _ _ => this
  | removeChildNodeByName this _ => this
  | removeChildNodeByIndex this _ => this
  | removeChildNodeByPointer this _ => this
  | removeAllChildNode this => this

def run (heap : Heap XMLNodeObject) : Call → Option (Heap XMLNodeObject)
  | addChildNode this v_Note v_Name v_Content =>
      (Xml.addChildNode this v_Note v_Name v_Content heap).map (·.1)
  | removeChildNodeByName this v_Name => (Xml.removeChildNodeByName this v_Name heap).map (·.1)
  | removeChildNodeByIndex this index => (Xml.removeChildNodeByIndex this index heap).map (·.1)
  | removeChildNodeByPointer this v_Node =>
      (Xml.removeChildNodeByPointer this v_Node heap).map (·.1)
  | removeAllChildNode this => (Xml.removeAllChildNode this heap).map (·.1)

/-- A call is not made behind undefined behaviour. -/
def step (state : Option (Heap XMLNodeObject)) (call : Call) : Option (Heap XMLNodeObject) :=
  state.bind fun heap => call.run heap

end Call

/-! What is promised. -/

section Steps

variable {heap : Heap XMLNodeObject} (rooted : Rooted XMLNodeObject.m_Nodes heap) {this : Nat}
  (here : heap.node this ≠ none)
include rooted here

end Steps

/-! Runs. -/

def sampleRoot : XMLNodeObject := newNode [] (text "r") [] 0

end EChainLib.Config.Xml
