import SafeHeap.CMachine.Exec
import SafeHeap.CMachine.Int
import SafeHeap.CMachine.Heap
import SafeHeap.CMachine.Observe
import SafeHeap.CMachine.Str
import SafeHeap.CMachine.Scan
import SafeHeap.CMachine.Assemble
import SafeHeap.CMachine.Intact
import SafeHeap.CMachine.Agree
import SafeHeap.CMachine.Simulate
import SafeHeap.Core
import SafeHeap.Alloc
import SafeHeap.Protect
import SafeHeap.Crypto
import SafeHeap.Malloc
import SafeHeap.Io
import SafeHeap.Keys
import SafeHeap.Policy
import SafeHeap.Parameters
import SafeHeap.Lookup
import SafeHeap.Frame
import SafeHeap.Entry
import SafeHeap.Register
import SafeHeap.HandOff
import SafeHeap.Segments
import SafeHeap.Room
import SafeHeap.Rounds
import SafeHeap.ReadLoop
import SafeHeap.Read
import SafeHeap.GetKey
import SafeHeap.Encrypt
import SafeHeap.GenerateKey
import SafeHeap.Session
import SafeHeap.Isolation
import SafeHeap.Store
import SafeHeap.Refused
import SafeHeap.Blind
import SafeHeap.Configuration
import SafeHeap.Sealed
import SafeHeap.Course
