import GitZero.ControlPlane.Connections
import GitZero.Lib.DepthFirst
import GitZero.Proofs.DispatchFencing
import GitZero.Proofs.JobRows
import GitZero.Proofs.LeaseOwnership
import GitZero.Proofs.LateDisconnects
import GitZero.Proofs.InitializationFencing
import GitZero.Proofs.ConcurrencyQueue
import GitZero.ControlPlane.Fleet
import GitZero.Proofs.AttemptFencing
import GitZero.Proofs.CapacityAgreement
import GitZero.Proofs.ArtifactImmutability
import GitZero.Proofs.CheckoutAuthorization
import GitZero.Proofs.EventRoundTrip
import GitZero.Proofs.ExpressionAnalysis
import GitZero.Workflow.Dependencies
import GitZero.Workflow.Expansion
import GitZero.Workflow.Returns
import GitZero.Proofs.PlanIdentity
import GitZero.Proofs.ConcurrencyScopes
import GitZero.Proofs.CallPermissions
import GitZero.Proofs.LinkerPanics
import GitZero.Proofs.DynamicCalls
import GitZero.Proofs.SecretBoundaries
import GitZero.Proofs.DeploymentSync
import GitZero.Proofs.RunSpecs
import GitZero.Proofs.Isolation
import GitZero.Proofs.BackgroundSteps
import GitZero.Proofs.ScheduleIndependence
import GitZero.Proofs.EnvironmentVisibility
import GitZero.Proofs.AgentSelection
import GitZero.Proofs.RunnerRequirements
import GitZero.Proofs.VariableSelection
import GitZero.Proofs.CheckAnnotations
import GitZero.Proofs.SecretEncryption
import GitZero.Proofs.DeploymentStatuses
import GitZero.Proofs.GlobLanguages
import GitZero.Proofs.MatcherRegistration
import GitZero.Proofs.MatcherProgress
import GitZero.Proofs.MatrixExpansion
import GitZero.Proofs.StepIds
import GitZero.Proofs.Templates
import GitZero.Proofs.FormatStrings
import GitZero.Proofs.ContextRoots
import GitZero.Proofs.CommandRoundTrip
import GitZero.Proofs.CommandLines
import GitZero.Proofs.LogForwarding
import GitZero.Proofs.CommandFiles
import GitZero.Proofs.DeferredEnvironment
import GitZero.Proofs.StatusFunctions
import GitZero.Proofs.SingleExpressions
import GitZero.Proofs.ActionPaths
import GitZero.Proofs.ArtifactAccounting
import GitZero.Proofs.CacheUploads
import GitZero.Proofs.CacheEviction
import GitZero.Proofs.CacheCrashes
import GitZero.Proofs.StepCourses
import GitZero.Proofs.GitConfiguration
import GitZero.Agent.ArtifactSubjects
import GitZero.Proofs.SubjectAggregation
import GitZero.Agent.ConcurrencyRequests
import GitZero.Proofs.ConcurrencyReleases
import GitZero.Agent.DeploymentPolicies
import GitZero.Proofs.DeploymentPatterns
import GitZero.Agent.MaskedEvents
import GitZero.Proofs.MaskGrowth
import GitZero.Proofs.EventMasking
import GitZero.Agent.PlanExecution
import GitZero.Proofs.PlanAccounting
import GitZero.Proofs.PlanMatrices
import GitZero.Proofs.PlanRefinement
import GitZero.Agent.WorkflowDiscovery
import GitZero.Proofs.TriggerMatching
import GitZero.Agent.RepositoryAccess
import GitZero.Proofs.RepositoryTokens
import GitZero.ControlPlane.SecretStore
import GitZero.ControlPlane.SecretVault
import GitZero.Lib.RankedPrefixes
import GitZero.Proofs.SecretBounds
import GitZero.Proofs.SecretDelivery
import GitZero.Proofs.SecretGrants
