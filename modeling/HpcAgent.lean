import HpcAgent.Lib.Scan
import HpcAgent.Lib.Lines
import HpcAgent.Lib.CharBuffer
import HpcAgent.Lib.Buckets
import HpcAgent.Lib.Fitting
import HpcAgent.Lib.Arithmetic
import HpcAgent.Lib.Reaches
import HpcAgent.Lib.Keyed
import HpcAgent.Lib.LinkedList
import HpcAgent.PendingRequest
import HpcAgent.TablaConns
import HpcAgent.TablaJobs
import HpcAgent.Parsing
import HpcAgent.JobRequestFormat
import HpcAgent.CheckedParsing
import HpcAgent.ResourceManager
import HpcAgent.Server
import HpcAgent.CAgentClient
import HpcAgent.Steps
import HpcAgent.Ledger
import HpcAgent.Counters
import HpcAgent.Answers
import HpcAgent.MicroSteps
import HpcAgent.Completion
import HpcAgent.Fulfilment
import HpcAgent.Conservation
import HpcAgent.Disconnection
import HpcAgent.Marks
import HpcAgent.Removal
import HpcAgent.Unaffected
import HpcAgent.Addresses
import HpcAgent.Connections
import HpcAgent.Lib.Turns
import HpcAgent.Operations
import HpcAgent.Arrivals
import HpcAgent.Wakeups
import HpcAgent.Agreement
import HpcAgent.Output
import HpcAgent.Workers
import HpcAgent.Oneshot
import HpcAgent.Lib.ErlString
import HpcAgent.NodeList
import HpcAgent.Masterloop
import HpcAgent.WireFormat
import HpcAgent.Serving
import HpcAgent.Rollback
import HpcAgent.Asking
import HpcAgent.Hosts
import HpcAgent.Endings
import HpcAgent.Entries
import HpcAgent.Teardown
import HpcAgent.LinkedQueue
import HpcAgent.LinkedJobs
import HpcAgent.LinkedNodes
import HpcAgent.JobsById
import HpcAgent.Lib.Routine
import HpcAgent.Handlers
import HpcAgent.LockOrder
import HpcAgent.EventLoop
import HpcAgent.JobIds
import HpcAgent.Delivery
import HpcAgent.Replies
import HpcAgent.Grants
import HpcAgent.Requests
import HpcAgent.Sending
import HpcAgent.Lib.Async
import HpcAgent.Lib.Channels
import HpcAgent.Cluster
import HpcAgent.Granted
import HpcAgent.Answered
import HpcAgent.Loans
import HpcAgent.Returns
import HpcAgent.Settlement
