import ModelDepot.Artifact.Folder
import ModelDepot.Artifact.Memory
import ModelDepot.Boosting.Materializer
import ModelDepot.Deployment.Client
import ModelDepot.Deployment.Deployer
import ModelDepot.Deployment.Loading
import ModelDepot.Records.Copy
import ModelDepot.Proofs.Boosting.Walk
import ModelDepot.Proofs.Boosting.Prediction
import ModelDepot.Proofs.Deployment.Sessions
import ModelDepot.Proofs.Deployment.Requests
import ModelDepot.Proofs.Deployment.Waiting
import ModelDepot.Proofs.Deployment.Starting
import ModelDepot.Proofs.Json.Quoted
import ModelDepot.Proofs.Json.Numerals
import ModelDepot.Proofs.Json.Reading
import ModelDepot.Proofs.Json.Members
import ModelDepot.Proofs.Json.Values
import ModelDepot.Proofs.Boosting.Documents
import ModelDepot.Proofs.Files.Changes
import ModelDepot.Proofs.Files.Below
import ModelDepot.Proofs.Json.Copies
import ModelDepot.Proofs.Artifact.Keeping
import ModelDepot.Proofs.Artifact.Folder
import ModelDepot.Proofs.Deployment.Payloads
import ModelDepot.Proofs.Deployment.Journal
import ModelDepot.Proofs.Deployment.Names
import ModelDepot.Proofs.Artifact.Labels
import ModelDepot.Proofs.Files.Sparing
import ModelDepot.Proofs.Files.Making
import ModelDepot.Proofs.Time.Calendar
import ModelDepot.Proofs.Time.Reading
import ModelDepot.Proofs.Artifact.Storing
import ModelDepot.Proofs.Artifact.Shelves
import ModelDepot.Proofs.Artifact.Refinement
import ModelDepot.Proofs.Records.Source
import ModelDepot.Proofs.Files.Places
import ModelDepot.Proofs.Boosting.Staging
import ModelDepot.Proofs.Boosting.Keeping
import ModelDepot.Proofs.Artifact.Taken
import ModelDepot.Proofs.Deployment.Distinct
import ModelDepot.Proofs.Files.Beginnings
import ModelDepot.Proofs.Artifact.Copying
import ModelDepot.Proofs.Records.Walk
import ModelDepot.Proofs.Records.Mirror
import ModelDepot.Proofs.Json.Records
import ModelDepot.Proofs.Deployment.Stopping
import ModelDepot.Proofs.Deployment.Deleting
import ModelDepot.Proofs.Deployment.Handles
import ModelDepot.Proofs.Deployment.Placing
import ModelDepot.Proofs.Deployment.Listing
import ModelDepot.Proofs.Deployment.Refusals
import ModelDepot.Proofs.Files.Passing
import ModelDepot.Proofs.Artifact.Versions
import ModelDepot.Proofs.Artifact.Others
import ModelDepot.Proofs.Deployment.Recovery
import ModelDepot.Proofs.Boosting.Sections
import ModelDepot.Proofs.Deployment.Addresses
import ModelDepot.Proofs.Url.Reading
import ModelDepot.Proofs.Artifact.Joining
import ModelDepot.Proofs.Decimal.Products
import ModelDepot.Proofs.Decimal.Shortest
import ModelDepot.Proofs.Json.Rereading
import ModelDepot.Proofs.Artifact.Rewriting
import ModelDepot.Proofs.Artifact.Listing
import ModelDepot.Proofs.Deployment.Reports
import ModelDepot.Proofs.Deployment.Tokens
import ModelDepot.Proofs.Deployment.Success
import ModelDepot.Proofs.Deployment.Scopes
import ModelDepot.Proofs.Boosting.Unfolding
import ModelDepot.Proofs.Boosting.Dependence
import ModelDepot.Proofs.Files.Retracing
import ModelDepot.Proofs.Records.Output
import ModelDepot.Proofs.Records.Refusals
import ModelDepot.Proofs.Boosting.Trails
import ModelDepot.Proofs.Config.Variables
import ModelDepot.Proofs.Deployment.Loading
import ModelDepot.Proofs.Files.Restoring
import ModelDepot.Proofs.Boosting.Leaving
import ModelDepot.Proofs.Files.Together
import ModelDepot.Proofs.Artifact.Clients
